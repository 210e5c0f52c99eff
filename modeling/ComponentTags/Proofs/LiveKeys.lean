import ComponentTags.Compile.Live
import ComponentTags.Proofs.CamelKeys

/-!
# The keys of live components

The attributes of a live component go under keys in camel case. A key with an underscore stays as it
is and has an alias in camel case, which gives way to an attribute that is written without an
underscore, wherever that stands (`liveKeys_precedence`).

1. The attributes are first put under new keys. Those with an underscore stay as they are in this
   (`filter_entries_ofList`), since camel case has none. So the value under a key is known from the
   attributes (`get?_liveKeys`).
2. The new keys do not change any more (`rename_of_mem_keys`), and their aliases are there and stand
   in front (`keys_aliases_liveKeys`). So a second run leaves the table and its order as they are
   (`liveKeys_liveKeys`).
-/

namespace ComponentTags.LiveKeys

open Text Name

/-- The key for an attribute: its name if that has an underscore, and its camel case otherwise. -/
def rename (key : Text) : Text :=
  if '_' ∈ key then key else camelCase key

theorem rename_of_mem {key : Text} (h : '_' ∈ key) : rename key = key :=
  if_pos h

theorem rename_of_not_mem {key : Text} (h : '_' ∉ key) : rename key = camelCase key :=
  if_neg h

/-- The attributes under their keys. -/
def named (values : Table Text) : Table Text :=
  .ofList (values.entries.map fun e => (rename e.1, e.2))

/-- The entries whose keys have underscores, under their other keys. -/
def aliases (entries : List (Text × Text)) : List (Text × Text) :=
  (entries.filter fun e => decide ('_' ∈ e.1)).map fun e => (camelCase e.1, e.2)

theorem keys_aliases (entries : List (Text × Text)) :
    (aliases entries).map Prod.fst =
      ((entries.map Prod.fst).filter fun key => decide ('_' ∈ key)).map camelCase := by
  rw [aliases, List.filter_map, List.map_map, List.map_map]
  rfl

theorem liveKeys_eq (values : Table Text) :
    liveKeys values =
      (Table.ofList (aliases (named values).entries)).putAll (named values).entries := by
  simp only [liveKeys, named, aliases, rename, List.contains_eq_mem, decide_eq_true_eq]

/-! ## Keys with underscores -/

theorem filter_put {p : Text → Bool} {key : Text} (h : p key = false) (value : Text)
    (entries : List (Text × Text)) :
    (Entries.put key value entries).filter (fun e => p e.1) = entries.filter fun e => p e.1 := by
  induction entries with
  | nil => simp [Entries.put, h]
  | cons e entries ih =>
    obtain ⟨k, v⟩ := e
    rw [Entries.put]
    split
    · next hk =>
      subst hk
      simp [h]
    · rw [List.filter_cons, List.filter_cons, ih]

theorem rename_eq_iff_of_not_mem {key k : Text} (hk : '_' ∉ k) :
    rename key = k ↔ '_' ∉ key ∧ camelCase key = k := by
  unfold rename
  split
  · next h =>
    refine iff_of_false ?_ fun h' => h'.1 h
    rintro rfl
    exact hk h
  · next h => exact (and_iff_right h).symm

theorem rename_eq_iff_of_mem {key k : Text} (hkey : ∀ c ∈ key, isAttributeNameChar c = true)
    (hk : '_' ∈ k) : rename key = k ↔ key = k := by
  unfold rename
  split
  · exact Iff.rfl
  · next h =>
    refine iff_of_false ?_ ?_
    · rintro rfl
      exact not_mem_camelCase hkey hk
    · rintro rfl
      exact h hk

/-- Entries whose keys have underscores stay as they are, in their order. -/
theorem filter_entries_ofList {entries : List (Text × Text)} (nodup : (entries.map Prod.fst).Nodup)
    (hkeys : ∀ e ∈ entries, ∀ c ∈ e.1, isAttributeNameChar c = true) :
    (Table.ofList (entries.map fun e => (rename e.1, e.2))).entries.filter
        (fun e => decide ('_' ∈ e.1)) =
      entries.filter fun e => decide ('_' ∈ e.1) := by
  induction entries using List.reverseRecOn with
  | nil => rfl
  | append_singleton entries e ih =>
    rw [List.map_append, List.nodup_append] at nodup
    have hkeys' : ∀ e ∈ entries, ∀ c ∈ e.1, isAttributeNameChar c = true :=
      fun e he => hkeys e (by simp [he])
    have hfront := ih nodup.1 hkeys'
    rw [List.map_append, List.map_singleton, Table.ofList, Table.putAll_append_singleton,
      List.filter_append]
    change (Entries.put (rename e.1) e.2 (Table.ofList _).entries).filter _ = _
    by_cases he : '_' ∈ e.1
    · have hnew : e.1 ∉ (Table.ofList (entries.map fun e => (rename e.1, e.2))).keys := by
        rw [Table.keys_ofList, List.mem_eraseDups, List.map_map, List.mem_map]
        rintro ⟨e', he', hrename⟩
        exact nodup.2.2 e'.1 (List.mem_map_of_mem he') e.1 (by simp)
          ((rename_eq_iff_of_mem (hkeys' e' he') he).1 hrename)
      rw [rename_of_mem he, Entries.put_of_not_mem hnew, List.filter_append, hfront]
    · have hrename : '_' ∉ rename e.1 := by
        rw [rename_of_not_mem he]
        exact not_mem_camelCase (hkeys e (by simp))
      rw [filter_put (p := fun key => decide ('_' ∈ key)) (decide_eq_false hrename), hfront]
      simp [he]

section Values

variable {values : Table Text}
  (hkeys : ∀ key ∈ values.keys, ∀ c ∈ key, isAttributeNameChar c = true)

include hkeys

theorem isAttributeNameChar_of_mem_entries :
    ∀ e ∈ values.entries, ∀ c ∈ e.1, isAttributeNameChar c = true :=
  fun e he => hkeys e.1 (List.mem_map_of_mem he)

theorem aliases_named : aliases (named values).entries = aliases values.entries :=
  congrArg (List.map _)
    (filter_entries_ofList values.nodup (isAttributeNameChar_of_mem_entries hkeys))

theorem mem_keys_liveKeys {k : Text} :
    k ∈ (liveKeys values).keys ↔
      (k ∈ values.keys ∧ '_' ∈ k) ∨ ∃ key ∈ values.keys, camelCase key = k := by
  have halias : k ∈ (Table.ofList (aliases values.entries)).keys ↔
      ∃ key ∈ values.keys, '_' ∈ key ∧ camelCase key = k := by
    rw [Table.keys_ofList, List.mem_eraseDups]
    simp [aliases, Table.keys, and_assoc]
  have hnamed : k ∈ (named values).entries.map Prod.fst ↔ ∃ key ∈ values.keys, rename key = k := by
    change k ∈ (named values).keys ↔ _
    rw [named, Table.keys_ofList, List.mem_eraseDups]
    simp [Table.keys]
  rw [liveKeys_eq, Table.mem_keys_putAll, aliases_named hkeys, halias, hnamed]
  constructor
  · rintro (⟨key, hkey, -, hk⟩ | ⟨key, hkey, hk⟩)
    · exact .inr ⟨key, hkey, hk⟩
    · by_cases hu : '_' ∈ key
      · rw [rename_of_mem hu] at hk
        exact .inl (hk ▸ ⟨hkey, hu⟩)
      · exact .inr ⟨key, hkey, by rwa [rename_of_not_mem hu] at hk⟩
  · rintro (⟨hk, hu⟩ | ⟨key, hkey, hk⟩)
    · exact .inr ⟨k, hk, rename_of_mem hu⟩
    · by_cases hu : '_' ∈ key
      · exact .inl ⟨key, hkey, hu, hk⟩
      · exact .inr ⟨key, hkey, by rwa [rename_of_not_mem hu]⟩

theorem get?_liveKeys (k : Text) :
    (liveKeys values).get? k =
      (Entries.lastWith (fun key => decide (rename key = k)) values.entries).or
        (Entries.lastWith (fun key => decide ('_' ∈ key ∧ camelCase key = k)) values.entries) := by
  have halias : (Table.ofList (aliases values.entries)).get? k =
      Entries.lastWith (fun key => decide ('_' ∈ key ∧ camelCase key = k)) values.entries := by
    rw [Table.get?_ofList, aliases, Entries.lastWith_map,
      Entries.lastWith_filter fun key => decide ('_' ∈ key)]
    simp only [Bool.decide_and]
  rw [liveKeys_eq, Table.get?_putAll, ← Table.get?_eq_lastWith, aliases_named hkeys, named,
    Table.get?_ofList, Entries.lastWith_map, halias]

theorem get?_liveKeys_of_mem {k : Text} (hk : k ∈ values.keys) (hu : '_' ∈ k) :
    (liveKeys values).get? k = values.get? k := by
  obtain ⟨value, hvalue⟩ := Table.mem_keys_iff.1 hk
  have hlast : Entries.lastWith (fun key => decide (rename key = k)) values.entries =
      some value := by
    rw [← hvalue, Table.get?_eq_lastWith]
    refine Entries.lastWith_congr fun e he => ?_
    simp only [rename_eq_iff_of_mem (isAttributeNameChar_of_mem_entries hkeys e he) hu]
  rw [get?_liveKeys hkeys, hlast, hvalue, Option.some_or]

/-! ## A second run -/

theorem rename_of_mem_keys {k : Text} (hk : k ∈ (liveKeys values).keys) : rename k = k := by
  rcases (mem_keys_liveKeys hkeys).1 hk with ⟨-, hu⟩ | ⟨key, hkey, rfl⟩
  · exact rename_of_mem hu
  · have hname := hkeys key hkey
    rw [rename_of_not_mem (not_mem_camelCase hname), camelCase_camelCase hname]

theorem named_liveKeys : named (liveKeys values) = liveKeys values := by
  have hsame : (liveKeys values).entries.map (fun e => (rename e.1, e.2)) =
      (liveKeys values).entries := by
    refine (List.map_congr_left fun e he => ?_).trans (List.map_id _)
    exact Prod.ext (rename_of_mem_keys hkeys (List.mem_map_of_mem he)) rfl
  rw [named, hsame, Table.ofList_entries]

theorem keys_liveKeys :
    (liveKeys values).keys =
      ((Table.ofList (aliases values.entries)).keys ++ (named values).keys).eraseDups := by
  rw [liveKeys_eq, aliases_named hkeys, Table.keys_putAll]
  rfl

/-- The aliases have no underscores, so that there are no aliases for them. -/
theorem filter_keys_liveKeys :
    (liveKeys values).keys.filter (fun key => decide ('_' ∈ key)) =
      values.keys.filter fun key => decide ('_' ∈ key) := by
  have hfront : (Table.ofList (aliases values.entries)).keys.filter
      (fun key => decide ('_' ∈ key)) = [] := by
    rw [List.filter_eq_nil_iff]
    intro k hk
    rw [Table.keys_ofList, List.mem_eraseDups, keys_aliases] at hk
    obtain ⟨key, hkey, rfl⟩ := List.mem_map.1 hk
    simpa using not_mem_camelCase (hkeys key (List.mem_filter.1 hkey).1)
  have hback : (named values).keys.filter (fun key => decide ('_' ∈ key)) =
      values.keys.filter fun key => decide ('_' ∈ key) := by
    have hentries := filter_entries_ofList values.nodup (isAttributeNameChar_of_mem_entries hkeys)
    rw [Table.keys, Table.keys, List.filter_map, List.filter_map]
    exact congrArg (List.map Prod.fst) hentries
  rw [keys_liveKeys hkeys, Entries.filter_eraseDups, List.filter_append, hfront, hback,
    List.nil_append, Entries.eraseDups_of_nodup (values.nodup_keys.filter _)]

theorem keys_aliases_liveKeys :
    (Table.ofList (aliases (liveKeys values).entries)).keys =
      (Table.ofList (aliases values.entries)).keys := by
  have hfilter := filter_keys_liveKeys hkeys
  rw [Table.keys_ofList, Table.keys_ofList, keys_aliases, keys_aliases]
  exact congrArg (fun keys => (keys.map camelCase).eraseDups) hfilter

theorem liveKeys_liveKeys : liveKeys (liveKeys values) = liveKeys values := by
  rw [liveKeys_eq (liveKeys values), named_liveKeys hkeys]
  refine Table.ext_of_get? ?_ fun k => ?_
  · rw [Table.keys_putAll, keys_aliases_liveKeys hkeys]
    change (_ ++ (liveKeys values).keys).eraseDups = _
    rw [keys_liveKeys hkeys, Entries.eraseDups_append_eraseDups]
  · rw [Table.get?_putAll, ← Table.get?_eq_lastWith]
    -- Every alias has its key already, and what is there counts.
    cases hget : (liveKeys values).get? k with
    | some value => rfl
    | none =>
      rw [Option.none_or, Option.eq_none_iff_forall_ne_some]
      intro value hvalue
      have hk := Table.mem_keys_iff.2 ⟨value, hvalue⟩
      rw [keys_aliases_liveKeys hkeys] at hk
      have hlive : k ∈ (liveKeys values).keys := by
        rw [keys_liveKeys hkeys, List.mem_eraseDups]
        exact List.mem_append_left _ hk
      obtain ⟨value', hvalue'⟩ := Table.mem_keys_iff.1 hlive
      rw [hget] at hvalue'
      cases hvalue'

end Values

/-- **Keys of live components.** The keys are those with an underscore and the camel case of all of
them. A key with an underscore keeps its value. Under any other stands the last attribute that is
written without an underscore, or, if there is none, the last alias. Nothing changes when it is done
once more. -/
theorem liveKeys_precedence (values : Table Text)
    (hkeys : ∀ key ∈ values.keys, ∀ c ∈ key, isAttributeNameChar c = true) :
    (∀ k, k ∈ (liveKeys values).keys ↔
      (k ∈ values.keys ∧ '_' ∈ k) ∨ ∃ key ∈ values.keys, camelCase key = k) ∧
    (∀ k ∈ values.keys, '_' ∈ k → (liveKeys values).get? k = values.get? k) ∧
    (∀ k, '_' ∉ k → (liveKeys values).get? k =
      (Entries.lastWith (fun key => decide ('_' ∉ key ∧ camelCase key = k)) values.entries).or
        (Entries.lastWith (fun key => decide ('_' ∈ key ∧ camelCase key = k)) values.entries)) ∧
    liveKeys (liveKeys values) = liveKeys values := by
  refine ⟨fun k => mem_keys_liveKeys hkeys, fun k => get?_liveKeys_of_mem hkeys, fun k hk => ?_,
    liveKeys_liveKeys hkeys⟩
  rw [get?_liveKeys hkeys]
  simp only [rename_eq_iff_of_not_mem hk]

/-- Two names, one of them in three spellings. -/
def spellings : Table Text :=
  .ofList [("user-name".toList, ['1']), ("user_name".toList, ['2']), ("first_name".toList, ['3']),
    ("userName".toList, ['4']), ("user_Name".toList, ['5'])]

theorem liveKeys_spellings :
    (∀ key ∈ spellings.keys, ∀ c ∈ key, isAttributeNameChar c = true) ∧
    (liveKeys spellings).get? "user_name".toList = some ['2'] ∧
    (liveKeys spellings).get? "userName".toList = some ['4'] ∧
    (liveKeys spellings).get? "firstName".toList = some ['3'] ∧
    liveKeys (liveKeys spellings) = liveKeys spellings := by
  have hall : (spellings.keys.all fun key => key.all isAttributeNameChar) = true := by decide
  have hkeys : ∀ key ∈ spellings.keys, ∀ c ∈ key, isAttributeNameChar c = true :=
    fun key hkey => List.all_eq_true.1 (List.all_eq_true.1 hall key hkey)
  obtain ⟨-, hunder, hcamel, hsame⟩ := liveKeys_precedence spellings hkeys
  refine ⟨hkeys, ?_, ?_, ?_, hsame⟩
  · exact (hunder _ (by decide) (by decide)).trans (by decide)
  · exact (hcamel _ (by decide)).trans (by decide)
  · exact (hcamel _ (by decide)).trans (by decide)

end ComponentTags.LiveKeys
