import ComponentTags.Proofs.Directives
import Mathlib.Data.List.Induction
import Mathlib.Data.List.Nodup

/-!
# Tables under keys in camel case

Keys are brought to camel case, and then several entries may have the same key. Writing them one
after the other gives a table with each key where it came first (`Table.keys_putAll`) and with the
value of its last entry (`Table.get?_putAll`).

The names of attributes have no underscore in camel case (`Name.not_mem_camelCase`), and nothing
changes when they are brought to camel case once more (`Name.camelCase_camelCase`).
-/

namespace ComponentTags

open Text

variable {α : Type}

/-! ## Keys where they came first -/

namespace Entries

theorem eraseDups_append_singleton (keys : List Text) (key : Text) :
    (keys ++ [key]).eraseDups =
      if key ∈ keys then keys.eraseDups else keys.eraseDups ++ [key] := by
  rw [List.eraseDups_append]
  by_cases h : key ∈ keys <;> simp [List.removeAll, h, List.eraseDups_cons]

theorem nodup_eraseDups (keys : List Text) : keys.eraseDups.Nodup := by
  induction keys using List.reverseRecOn with
  | nil => simp
  | append_singleton keys key ih =>
    rw [eraseDups_append_singleton]
    split
    · exact ih
    · next h =>
      refine List.nodup_append.2 ⟨ih, by simp, fun a ha b hb => ?_⟩
      rw [List.mem_singleton] at hb
      rintro rfl
      exact h (hb ▸ List.mem_eraseDups.1 ha)

theorem eraseDups_of_nodup {keys : List Text} (h : keys.Nodup) : keys.eraseDups = keys := by
  induction keys using List.reverseRecOn with
  | nil => rfl
  | append_singleton keys key ih =>
    obtain ⟨hkeys, -, hnew⟩ := List.nodup_append.1 h
    have hkey : key ∉ keys := fun hm => hnew key hm key (by simp) rfl
    rw [eraseDups_append_singleton, if_neg hkey, ih hkeys]

theorem filter_eraseDups (p : Text → Bool) (keys : List Text) :
    keys.eraseDups.filter p = (keys.filter p).eraseDups := by
  induction keys using List.reverseRecOn with
  | nil => rfl
  | append_singleton keys key ih =>
    rw [eraseDups_append_singleton, List.filter_append]
    by_cases hp : p key = true
    · rw [List.filter_cons_of_pos hp, List.filter_nil, eraseDups_append_singleton, ← ih]
      by_cases hm : key ∈ keys
      · simp [hm, hp]
      · simp [hm, hp]
    · rw [List.filter_cons_of_neg hp, List.filter_nil, List.append_nil, ← ih]
      by_cases hm : key ∈ keys
      · simp [hm]
      · simp [hm, hp]

theorem eraseDups_append_eraseDups (keys more : List Text) :
    (keys ++ (keys ++ more).eraseDups).eraseDups = (keys ++ more).eraseDups := by
  have hfront : keys.eraseDups.removeAll keys = [] := by
    simp [List.removeAll]
  have hback : (more.removeAll keys).eraseDups.removeAll keys =
      (more.removeAll keys).eraseDups := by
    rw [List.removeAll, filter_eraseDups]
    simp [List.removeAll]
  have hnew : (keys ++ more).eraseDups.removeAll keys = (more.removeAll keys).eraseDups := by
    rw [List.eraseDups_append, List.removeAll, List.filter_append]
    exact (congrArg₂ _ hfront hback).trans (List.nil_append _)
  rw [List.eraseDups_append, hnew, eraseDups_of_nodup (nodup_eraseDups _), List.eraseDups_append]

/-! ## Values of the last entries -/

/-- The value of the last entry whose key satisfies `p`. -/
def lastWith (p : Text → Bool) (entries : List (Text × α)) : Option α :=
  (entries.reverse.find? fun e => p e.1).map Prod.snd

variable {p : Text → Bool} {entries : List (Text × α)} {value : α}

theorem lastWith_append_singleton (p : Text → Bool) (entries : List (Text × α)) (e : Text × α) :
    lastWith p (entries ++ [e]) = if p e.1 then some e.2 else lastWith p entries := by
  by_cases h : p e.1 = true <;> simp [lastWith, h]

theorem lastWith_eq_some_iff :
    lastWith p entries = some value ↔ ∃ before key after,
      entries = before ++ (key, value) :: after ∧ p key = true ∧ ∀ e ∈ after, p e.1 = false := by
  have hreverse : ∀ before after : List (Text × α), ∀ e,
      entries.reverse = after ++ e :: before ↔
        entries = before.reverse ++ e :: after.reverse := by
    intro before after e
    rw [List.reverse_eq_iff]
    simp
  simp only [lastWith, Option.map_eq_some_iff, List.find?_eq_some_iff_append, hreverse]
  constructor
  · rintro ⟨⟨key, _⟩, ⟨hp, after, before, he, hafter⟩, rfl⟩
    exact ⟨_, key, _, he, hp, fun e h => by simpa using hafter e (List.mem_reverse.1 h)⟩
  · rintro ⟨before, key, after, he, hp, hafter⟩
    refine ⟨(key, value), ⟨hp, after.reverse, before.reverse, by simpa using he, fun e h => ?_⟩,
      rfl⟩
    simpa using hafter e (List.mem_reverse.1 h)

theorem lastWith_map (f : Text → Text) (p : Text → Bool) (entries : List (Text × α)) :
    lastWith p (entries.map fun e => (f e.1, e.2)) = lastWith (fun key => p (f key)) entries := by
  rw [lastWith, ← List.map_reverse, List.find?_map, Option.map_map]
  rfl

theorem lastWith_filter (q p : Text → Bool) (entries : List (Text × α)) :
    lastWith p (entries.filter fun e => q e.1) = lastWith (fun key => q key && p key) entries := by
  rw [lastWith, ← List.filter_reverse, List.find?_filter, lastWith]
  simp only [Bool.decide_and, Bool.decide_eq_true]

theorem lastWith_congr {q : Text → Bool} (h : ∀ e ∈ entries, p e.1 = q e.1) :
    lastWith p entries = lastWith q entries := by
  induction entries using List.reverseRecOn with
  | nil => rfl
  | append_singleton entries e ih =>
    rw [lastWith_append_singleton, lastWith_append_singleton, h e (by simp),
      ih fun e' he' => h e' (by simp [he'])]

/-! ## Entries with different keys -/

section Nodup

variable {key : Text} (h : (entries.map Prod.fst).Nodup)

include h

theorem exists_append_of_mem (hm : (key, value) ∈ entries) :
    ∃ before after, entries = before ++ (key, value) :: after ∧
      (∀ e ∈ before, e.1 ≠ key) ∧ ∀ e ∈ after, e.1 ≠ key := by
  obtain ⟨before, after, rfl⟩ := List.append_of_mem hm
  rw [List.map_append, List.map_cons, List.nodup_middle, List.nodup_cons, ← List.map_append] at h
  have hkey : ∀ e ∈ before ++ after, e.1 ≠ key :=
    fun e he heq => h.1 (List.mem_map.2 ⟨e, he, heq⟩)
  exact ⟨before, after, rfl, fun e he => hkey e (by simp [he]), fun e he => hkey e (by simp [he])⟩

theorem lookup_eq_some_iff_mem : entries.lookup key = some value ↔ (key, value) ∈ entries := by
  rw [List.lookup_eq_some_iff]
  constructor
  · rintro ⟨before, after, rfl, -⟩
    simp
  · intro hm
    obtain ⟨before, after, he, hbefore, -⟩ := exists_append_of_mem h hm
    exact ⟨before, after, he, fun e hmem => by simpa using (hbefore e hmem).symm⟩

theorem lookup_eq_lastWith (key : Text) :
    entries.lookup key = lastWith (fun k => decide (k = key)) entries := by
  ext value
  rw [lookup_eq_some_iff_mem h, lastWith_eq_some_iff]
  constructor
  · intro hm
    obtain ⟨before, after, he, -, hafter⟩ := exists_append_of_mem h hm
    exact ⟨before, key, after, he, by simp, by simpa using hafter⟩
  · rintro ⟨before, k, after, rfl, hk, -⟩
    simp [of_decide_eq_true hk]

end Nodup

end Entries

/-! ## Tables -/

namespace Table

variable {t : Table α} {key : Text}

theorem nodup_keys (t : Table α) : t.keys.Nodup :=
  t.nodup

theorem get?_eq_some_iff {value : α} : t.get? key = some value ↔ (key, value) ∈ t.entries :=
  Entries.lookup_eq_some_iff_mem t.nodup

theorem ext_of_get? {t t' : Table α} (hkeys : t.keys = t'.keys) (h : ∀ k, t.get? k = t'.get? k) :
    t = t' := by
  have hmap : ∀ s : Table α,
      s.entries.map (fun e => (e.1, some e.2)) = s.keys.map fun k => (k, s.get? k) := by
    intro s
    rw [keys, List.map_map]
    exact List.map_congr_left fun e he => Prod.ext rfl (get?_eq_some_iff.2 he).symm
  have hentries : t.entries.map (fun e => (e.1, some e.2)) =
      t'.entries.map fun e => (e.1, some e.2) := by
    rw [hmap, hmap, hkeys]
    simp only [h]
  have hinj : Function.Injective fun e : Text × α => (e.1, some e.2) := by
    rintro ⟨k, v⟩ ⟨k', v'⟩ he
    simpa using he
  obtain ⟨entries, nodup⟩ := t
  obtain ⟨entries', nodup'⟩ := t'
  obtain rfl : entries = entries' := List.map_injective_iff.2 hinj hentries
  rfl

theorem putAll_append_singleton (t : Table α) (entries : List (Text × α)) (e : Text × α) :
    t.putAll (entries ++ [e]) = (t.putAll entries).put e.1 e.2 := by
  simp [putAll]

/-- The last entry that is written for a key counts. -/
theorem get?_putAll (t : Table α) (entries : List (Text × α)) (key : Text) :
    (t.putAll entries).get? key =
      (Entries.lastWith (fun k => decide (k = key)) entries).or (t.get? key) := by
  induction entries using List.reverseRecOn with
  | nil => rfl
  | append_singleton entries e ih =>
    rw [putAll_append_singleton, get?_put, ih, Entries.lastWith_append_singleton]
    by_cases h : e.1 = key
    · simp [h]
    · simp [h, Ne.symm h]

/-- A key stays where it came first, whatever is written under it. -/
theorem keys_foldl_put {β : Type} (value : Table α → Text × β → α) (t : Table α)
    (entries : List (Text × β)) :
    (entries.foldl (fun t e => t.put e.1 (value t e)) t).keys =
      (t.keys ++ entries.map Prod.fst).eraseDups := by
  induction entries using List.reverseRecOn with
  | nil =>
    rw [List.map_nil, List.append_nil, Entries.eraseDups_of_nodup t.nodup_keys, List.foldl_nil]
  | append_singleton entries e ih =>
    rw [List.foldl_append, List.foldl_cons, List.foldl_nil, List.map_append, ← List.append_assoc,
      List.map_singleton, Entries.eraseDups_append_singleton, ← ih]
    generalize hfront : entries.foldl (fun t e => t.put e.1 (value t e)) t = front at ih ⊢
    have hmem : e.1 ∈ front.keys ↔ e.1 ∈ t.keys ++ entries.map Prod.fst := by
      rw [ih, List.mem_eraseDups]
    by_cases h : e.1 ∈ front.keys
    · rw [keys_put_of_mem h, if_pos (hmem.1 h)]
    · rw [keys_put_of_not_mem h, if_neg fun hm => h (hmem.2 hm)]

theorem keys_putAll (t : Table α) (entries : List (Text × α)) :
    (t.putAll entries).keys = (t.keys ++ entries.map Prod.fst).eraseDups :=
  keys_foldl_put (fun _ e => e.2) t entries

theorem mem_keys_putAll {entries : List (Text × α)} :
    key ∈ (t.putAll entries).keys ↔ key ∈ t.keys ∨ key ∈ entries.map Prod.fst := by
  rw [keys_putAll, List.mem_eraseDups, List.mem_append]

theorem get?_ofList (entries : List (Text × α)) (key : Text) :
    (ofList entries).get? key = Entries.lastWith (fun k => decide (k = key)) entries := by
  rw [ofList, get?_putAll, get?_empty, Option.or_none]

theorem keys_ofList (entries : List (Text × α)) :
    (ofList entries).keys = (entries.map Prod.fst).eraseDups :=
  keys_putAll empty entries

theorem get?_eq_lastWith (t : Table α) (key : Text) :
    t.get? key = Entries.lastWith (fun k => decide (k = key)) t.entries :=
  Entries.lookup_eq_lastWith t.nodup key

theorem ofList_entries (t : Table α) : ofList t.entries = t := by
  refine ext_of_get? ?_ fun k => ?_
  · rw [keys_ofList]
    exact Entries.eraseDups_of_nodup t.nodup
  · rw [get?_ofList, get?_eq_lastWith]

end Table

/-! ## Camel case -/

namespace Name

/-- The characters of a name of an attribute in camel case. -/
def isCamelChar (c : Char) : Bool :=
  isAttributeNameChar c && !isWordBreak c

theorem isCamelChar_case {c : Char} (h : isCamelChar c = true) :
    c.toNat < 0x80 ∧ isCamelChar c.toUpper = true ∧ isCamelChar c.toLower = true := by
  have hall : ∀ n < 0x80, isCamelChar (Char.ofNat n) = true →
      isCamelChar (Char.ofNat n).toUpper = true ∧ isCamelChar (Char.ofNat n).toLower = true := by
    decide
  have hc := (toNat_of_isAttributeNameChar (Bool.and_eq_true_iff.1 h).1).2
  have hcase := hall c.toNat (by omega)
  rw [Char.ofNat_toNat] at hcase
  exact ⟨by omega, hcase h⟩

theorem upperFirst_cons {c : Char} (h : isCamelChar c = true) (rest : Text) :
    upperFirst (c :: rest) = c.toUpper :: rest := by
  rw [upperFirst, upperChar, if_pos (isCamelChar_case h).1]
  rfl

theorem lowerFirst_cons {c : Char} (h : isCamelChar c = true) (rest : Text) :
    lowerFirst (c :: rest) = c.toLower :: rest := by
  rw [lowerFirst, lowerChar, if_pos (isCamelChar_case h).1]
  rfl

theorem toLower_toUpper_toLower {c : Char} (h : isCamelChar c = true) :
    c.toLower.toUpper.toLower = c.toLower := by
  have hall : ∀ n < 0x80, (Char.ofNat n).toLower.toUpper.toLower = (Char.ofNat n).toLower := by
    decide
  have hc := hall c.toNat (isCamelChar_case h).1
  rwa [Char.ofNat_toNat] at hc

variable {name : Text} (hname : ∀ c ∈ name, isAttributeNameChar c = true)

include hname

theorem isCamelChar_of_mem {c : Char} (hc : c ∈ name) (hbreak : isWordBreak c = false) :
    isCamelChar c = true := by
  simp [isCamelChar, hname c hc, hbreak]

theorem isCamelChar_of_mem_studlyCase : ∀ c ∈ studlyCase name, isCamelChar c = true :=
  forall_mem_studlyCase (p := fun c => isCamelChar c = true) (fun _ => isCamelChar_case)
    fun _ => isCamelChar_of_mem hname

theorem isCamelChar_of_mem_camelCase : ∀ c ∈ camelCase name, isCamelChar c = true :=
  forall_mem_camelCase (p := fun c => isCamelChar c = true) (fun _ => isCamelChar_case)
    fun _ => isCamelChar_of_mem hname

theorem not_mem_camelCase : '_' ∉ camelCase name :=
  fun h => absurd (isCamelChar_of_mem_camelCase hname '_' h) (by decide)

theorem camelCase_camelCase : camelCase (camelCase name) = camelCase name := by
  have hcamel := isCamelChar_of_mem_camelCase hname
  have hone : (camelCase name).splitOnP isWordBreak = [camelCase name] := by
    refine List.splitOnP_eq_singleton fun c hc => ?_
    simpa using (Bool.and_eq_true_iff.1 (hcamel c hc)).2
  have hstudly : studlyCase (camelCase name) = upperFirst (camelCase name) := by
    rw [studlyCase, hone, List.flatMap_singleton]
  rw [camelCase, hstudly]
  unfold camelCase
  cases hs : studlyCase name with
  | nil => rfl
  | cons a rest =>
    have ha : isCamelChar a = true := isCamelChar_of_mem_studlyCase hname a (by simp [hs])
    have ha' := (isCamelChar_case ha).2.2
    rw [lowerFirst_cons ha, upperFirst_cons ha', lowerFirst_cons (isCamelChar_case ha').2.1,
      toLower_toUpper_toLower ha]

end Name

end ComponentTags
