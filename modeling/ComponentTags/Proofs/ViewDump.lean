import ComponentTags.Proofs.ConfigChecks
import ComponentTags.Proofs.JsonKeys
import ComponentTags.Proofs.ListTables
import ComponentTags.Proofs.ViewFiles

/-!
# The dump of the runtime

A dump of what the runtime knows about views is another spelling of a configuration. In the native
form (`Config.native`) the lists among the namespaces are hints, ahead of the others and with their
paths ahead of those that the hint has, and the further paths stand behind the paths for views. Both
spellings are read alike (`Config.reading_native`): their tables of hints have the same keys, and
under each of them the same paths in the same order. Keys have to be distinct, as they are in every
object that is read (`Json.distinct_of_read`).

What is read from an absolute directory has absolute paths only.
-/

namespace ComponentTags

open Text

/-! ## The native form -/

def Data.isList : Data → Bool
  | .list _ => true
  | _ => false

def Data.strings (texts : List Text) : Data :=
  .list (texts.map .text)

namespace Config

/-- The hints that are listed among the namespaces, each with the paths that it has as a hint behind
its own, and then the other hints. -/
def mergedHints (listed hints : List (Text × Data)) : List (Text × Data) :=
  listed.map (fun e => (e.1, .strings (textsOf e.2 ++ (hints.lookup e.1).elim [] textsOf))) ++
    hints.filter fun e => e.1 ∉ listed.map Prod.fst

/-- The members with the lists among the namespaces moved to the hints, and with the further paths
behind the paths for views. -/
def native (members : List (Text × Data)) : List (Text × Data) :=
  let namespaces := partsAt members "namespaces".toList
  let hints := partsAt members "view_hints".toList
  Entries.put "namespaces".toList (.object (namespaces.filter fun e => !e.2.isList)) <|
    Entries.put "view_hints".toList
      (.object (mergedHints (namespaces.filter fun e => e.2.isList) hints)) <|
    Entries.put "view_paths".toList
      (.strings (textsAt members "view_paths".toList ++ textsAt members "paths".toList)) <|
    members.filter fun e => e.1 ≠ "paths".toList

variable {members : List (Text × Data)} {base : Option Path}

theorem textsOf_strings (texts : List Text) : textsOf (.strings texts) = texts := by
  rw [Data.strings, textsOf, List.map_map]
  exact List.map_id _

section Lookups

theorem lookup_native_namespaces :
    (native members).lookup "namespaces".toList = some (.object
      ((partsAt members "namespaces".toList).filter fun e => !e.2.isList)) := by
  rw [native, Entries.lookup_put, if_pos rfl]

theorem lookup_native_hints :
    (native members).lookup "view_hints".toList = some (.object
      (mergedHints ((partsAt members "namespaces".toList).filter fun e => e.2.isList)
        (partsAt members "view_hints".toList))) := by
  rw [native, Entries.lookup_put, if_neg (by decide), Entries.lookup_put, if_pos rfl]

theorem lookup_native_viewPaths :
    (native members).lookup "view_paths".toList = some
      (.strings (textsAt members "view_paths".toList ++ textsAt members "paths".toList)) := by
  rw [native, Entries.lookup_put, if_neg (by decide), Entries.lookup_put, if_neg (by decide),
    Entries.lookup_put, if_pos rfl]

theorem lookup_native_paths : (native members).lookup "paths".toList = none := by
  rw [native, Entries.lookup_put, if_neg (by decide), Entries.lookup_put, if_neg (by decide),
    Entries.lookup_put, if_neg (by decide), Entries.lookup_filter_ne, if_pos rfl]

theorem lookup_native {key : Text} (h : key ∉ ["namespaces".toList, "view_hints".toList,
    "view_paths".toList, "paths".toList]) : (native members).lookup key = members.lookup key := by
  simp only [List.mem_cons, List.not_mem_nil, or_false, not_or] at h
  obtain ⟨h₁, h₂, h₃, h₄⟩ := h
  rw [native, Entries.lookup_put, if_neg h₁, Entries.lookup_put, if_neg h₂, Entries.lookup_put,
    if_neg h₃, Entries.lookup_filter_ne, if_neg h₄]

end Lookups

/-! ## Reading the native form -/

theorem WellShaped.part (h : WellShaped members) {key : Text} {part : Shape}
    (hm : (key, .objectOf part) ∈ layout) : ∀ e ∈ partsAt members key, part.Accepts e.2 := by
  intro e he
  unfold partsAt at he
  cases hvalue : members.lookup key with
  | none => simp [hvalue] at he
  | some value =>
    rw [hvalue] at he
    rcases h _ hm value hvalue with rfl | ⟨inner, rfl, hinner⟩
    · exact absurd he List.not_mem_nil
    · exact hinner e he

theorem accepts_strings (texts : List Text) : Shape.strings.Accepts (.strings texts) :=
  .inr ⟨_, rfl, by simp⟩

theorem isList_eq_of_accepts {value : Data} (h : Shape.strings.Accepts value) :
    value.isList = !value.isText := by
  rcases h with ⟨text, rfl⟩ | ⟨items, rfl, -⟩ <;> rfl

/-- The strings among the namespaces go to one table and the lists to the other. -/
theorem foldl_addNamespace (entries : List (Text × Data))
    (tables : Table Text × Table (List Text)) :
    entries.foldl (addNamespace base) tables =
      (tables.1.putAll ((entries.filter fun e => e.2.isText).map fun e => (e.1, textOf e.2)),
        tables.2.putAll ((entries.filter fun e => !e.2.isText).map fun e =>
          (e.1, directoriesOf base e.2))) := by
  induction entries generalizing tables with
  | nil => rfl
  | cons e entries ih =>
    obtain ⟨name, value⟩ := e
    rw [List.foldl_cons, ih]
    cases value <;> rfl

theorem addHint_eq (base : Option Path) :
    addHint base = fun t e => t.extend e.1 (directoriesOf base e.2) := rfl

theorem directoriesOf_strings (base : Option Path) (texts : List Text) :
    directoriesOf base (.strings texts) = texts.map (located base) := by
  rw [directoriesOf, textsOf_strings]

theorem keys_mergedHints (listed hints : List (Text × Data)) :
    (mergedHints listed hints).map Prod.fst =
      listed.map Prod.fst ++ (hints.map Prod.fst).removeAll (listed.map Prod.fst) := by
  rw [mergedHints, List.map_append, List.map_map, List.removeAll, List.filter_map]
  congr 2
  refine List.filter_congr fun e _ => ?_
  simp

theorem flatMap_mergedHints {listed hints : List (Text × Data)}
    (hlisted : (listed.map Prod.fst).Nodup) (hhints : (hints.map Prod.fst).Nodup) (key : Text) :
    ((mergedHints listed hints).filter fun e => e.1 = key).flatMap
        (fun e => directoriesOf base e.2) =
      (listed.lookup key).elim [] (directoriesOf base) ++
        (hints.lookup key).elim [] (directoriesOf base) := by
  have hfront : listed.filter ((fun e => decide (e.1 = key)) ∘ fun e =>
      (e.1, Data.strings (textsOf e.2 ++ (hints.lookup e.1).elim [] textsOf))) =
      (listed.lookup key).toList.map fun value => (key, value) := Entries.filter_key_eq hlisted key
  rw [mergedHints, List.filter_append, List.filter_map, hfront, List.filter_filter,
    List.flatMap_append]
  cases hl : listed.lookup key with
  | none =>
    have hkey : key ∉ listed.map Prod.fst := by
      intro hm
      obtain ⟨e, he, rfl⟩ := List.mem_map.1 hm
      simpa using List.lookup_eq_none_iff.1 hl e he
    have hback : (hints.filter fun e => decide (e.1 = key) && decide (e.1 ∉ listed.map Prod.fst)) =
        (hints.lookup key).toList.map fun value => (key, value) := by
      rw [← Entries.filter_key_eq hhints]
      refine List.filter_congr fun e _ => ?_
      by_cases he : e.1 = key
      · simp only [he, hkey, not_false_eq_true, decide_true, Bool.and_self]
      · simp only [he, decide_false, Bool.false_and]
    rw [hback]
    cases hints.lookup key <;> simp
  | some value =>
    have hkey : key ∈ listed.map Prod.fst :=
      List.mem_map.2 ⟨_, (Entries.lookup_eq_some_iff_mem hlisted).1 hl, rfl⟩
    have hback : (hints.filter fun e => decide (e.1 = key) && decide (e.1 ∉ listed.map Prod.fst)) =
        [] := by
      rw [List.filter_eq_nil_iff]
      intro e _ he
      obtain ⟨rfl, hno⟩ := by simpa only [Bool.and_eq_true, decide_eq_true_eq] using he
      exact hno hkey
    rw [hback, Option.toList_some, List.map_singleton, List.map_singleton, List.flatMap_singleton,
      directoriesOf_strings, List.map_append, List.flatMap_nil, List.append_nil]
    cases hints.lookup key <;> rfl

/-- The hints of the two places together are those of the native form. -/
theorem foldl_addHint_mergedHints {listed hints : List (Text × Data)}
    (hlisted : (listed.map Prod.fst).Nodup) (hhints : (hints.map Prod.fst).Nodup) :
    (mergedHints listed hints).foldl (addHint base) .empty =
      hints.foldl (addHint base)
        (.ofList (listed.map fun e => (e.1, directoriesOf base e.2))) := by
  rw [addHint_eq]
  refine Table.ext_of_listed ?_ fun key => ?_
  · have hempty : (Table.empty : Table (List Text)).keys = [] := rfl
    have hmap : (listed.map fun e => (e.1, directoriesOf base e.2)).map Prod.fst =
        listed.map Prod.fst := by
      rw [List.map_map]
      rfl
    rw [Table.keys_foldl_extend, Table.keys_foldl_extend, Table.keys_ofList, keys_mergedHints,
      hempty, hmap, Entries.eraseDups_of_nodup hlisted, List.nil_append, List.eraseDups_append,
      List.eraseDups_append]
    simp [List.removeAll]
  · have hempty : (Table.empty : Table (List Text)).listed key = [] := rfl
    rw [Table.listed_foldl_extend, Table.listed_foldl_extend, hempty, List.nil_append,
      Table.listed_ofList hlisted, flatMap_mergedHints hlisted hhints, Entries.filter_key_eq hhints]
    cases hints.lookup key <;> simp

theorem accepts_mergedHints {listed hints : List (Text × Data)}
    (hhints : ∀ e ∈ hints, Shape.strings.Accepts e.2) :
    ∀ e ∈ mergedHints listed hints, Shape.strings.Accepts e.2 := by
  intro e he
  rcases List.mem_append.1 he with he | he
  · obtain ⟨e, -, rfl⟩ := List.mem_map.1 he
    exact accepts_strings _
  · exact hhints e (List.mem_of_mem_filter he)

section Reading

variable (h : WellShaped members)

theorem nodup_partsAt (hkeys : (Data.object members).Distinct) (key : Text) :
    ((partsAt members key).map Prod.fst).Nodup := by
  cases hkeys with
  | object nodup values =>
    unfold partsAt
    cases hvalue : members.lookup key with
    | none => exact List.nodup_nil
    | some value =>
      cases values _ ((Entries.lookup_eq_some_iff_mem nodup).1 hvalue) with
      | object inner_nodup _ => exact inner_nodup
      | _ => exact List.nodup_nil

theorem partsAt_of_lookup {key : Text} {value : Data} (h : members.lookup key = some value) :
    partsAt members key = parts value := by
  rw [partsAt, h]
  rfl

include h

theorem filter_isList_namespaces :
    ((partsAt members "namespaces".toList).filter fun e => e.2.isList) =
      (partsAt members "namespaces".toList).filter fun e => !e.2.isText :=
  List.filter_congr fun e he => isList_eq_of_accepts (h.part (by simp [layout]) e he)

theorem partsAt_native_namespaces :
    partsAt (native members) "namespaces".toList =
      (partsAt members "namespaces".toList).filter fun e => e.2.isText := by
  rw [partsAt_of_lookup lookup_native_namespaces]
  refine List.filter_congr fun e he => ?_
  rw [isList_eq_of_accepts (h.part (by simp [layout]) e he), Bool.not_not]

theorem namespacesOf_native :
    namespacesOf base (native members) = ((namespacesOf base members).1, .empty) := by
  unfold namespacesOf
  rw [partsAt_native_namespaces h, foldl_addNamespace, foldl_addNamespace, List.filter_filter,
    List.filter_filter]
  simp only [Bool.and_self, Bool.not_and_self, List.filter_false]
  rfl

theorem viewHints_native (hkeys : (Data.object members).Distinct) :
    (reading base (native members)).viewHints = (reading base members).viewHints := by
  have hlisted : (((partsAt members "namespaces".toList).filter fun e => e.2.isList).map
      Prod.fst).Nodup :=
    (nodup_partsAt hkeys _).sublist (List.filter_sublist.map _)
  have htable : (namespacesOf base members).2 = .ofList
      (((partsAt members "namespaces".toList).filter fun e => e.2.isList).map fun e =>
        (e.1, directoriesOf base e.2)) := by
    rw [namespacesOf, foldl_addNamespace, filter_isList_namespaces h]
    rfl
  unfold reading
  dsimp only
  rw [namespacesOf_native h, htable, partsAt_of_lookup lookup_native_hints]
  exact foldl_addHint_mergedHints hlisted (nodup_partsAt hkeys _)

theorem wellShaped_native : WellShaped (native members) := by
  have hnamespaces : ∀ e ∈ partsAt members "namespaces".toList, Shape.strings.Accepts e.2 :=
    h.part (by simp [layout])
  have hhints : ∀ e ∈ partsAt members "view_hints".toList, Shape.strings.Accepts e.2 :=
    h.part (by simp [layout])
  unfold WellShaped layout at h ⊢
  simp only [List.forall_mem_cons] at h ⊢
  obtain ⟨-, -, h₃, h₄, -, -, h₇, h₈, h₉, -⟩ := h
  rw [lookup_native_namespaces, lookup_native_hints, lookup_native_viewPaths, lookup_native_paths,
    lookup_native (by decide), lookup_native (by decide), lookup_native (by decide),
    lookup_native (by decide), lookup_native (by decide)]
  refine ⟨?_, ?_, h₃, h₄, ?_, by simp, h₇, h₈, h₉, by simp⟩
  · rintro value ⟨⟩
    exact .inr ⟨_, rfl, fun e he => hnamespaces e (List.mem_of_mem_filter he)⟩
  · rintro value ⟨⟩
    exact .inr ⟨_, rfl, accepts_mergedHints hhints⟩
  · rintro value ⟨⟩
    exact accepts_strings _

/-- **Spelling.** The native form is read as the members are. -/
theorem reading_native (hkeys : (Data.object members).Distinct) (base : Option Path) :
    reading base (native members) = reading base members := by
  have hview : textsAt (native members) "view_paths".toList =
      textsAt members "view_paths".toList ++ textsAt members "paths".toList := by
    show ((native members).lookup "view_paths".toList).elim [] textsOf = _
    rw [lookup_native_viewPaths]
    exact textsOf_strings _
  have hpaths : textsAt (native members) "paths".toList = [] := by
    rw [textsAt, lookup_native_paths]
    rfl
  have hhints : (reading base (native members)).viewHints = (reading base members).viewHints :=
    viewHints_native h hkeys
  unfold reading at hhints ⊢
  dsimp only at hhints
  rw [hhints, hview, hpaths, List.append_nil, namespacesOf_native h, partsAt, partsAt, partsAt,
    itemsAt, lookup_native (by decide), lookup_native (by decide), lookup_native (by decide),
    lookup_native (by decide), lookup_native (by decide)]
  rfl

end Reading

/-! ## Absolute paths -/

/-- Whether a path in writing has a root. -/
def IsAbsolute (path : Text) : Prop :=
  (Path.ofText path).isAbsolute = true

theorem isAbsolute_iff {path : Text} : IsAbsolute path ↔ path.head? = some '/' := by
  rw [IsAbsolute, Path.isAbsolute, bne_iff_ne, Path.ofText, Ne, Path.rootOf_eq_relative_iff,
    not_not]

theorem isAbsolute_toText {p : Path} (h : p.isAbsolute = true) : IsAbsolute p.toText := by
  obtain ⟨root, parts⟩ := p
  rw [isAbsolute_iff]
  cases root with
  | relative => cases h
  | single => rfl
  | double => rfl

theorem isAbsolute_located {directory : Path} (h : directory.isAbsolute = true) (path : Text) :
    IsAbsolute (located (some directory) path) := by
  unfold located
  dsimp only
  split
  · next hpath => exact hpath
  · next hpath =>
    refine isAbsolute_toText ?_
    rw [Path.join, if_neg hpath]
    exact h

theorem isAbsolute_of_mem_directoriesOf {directory : Path} (h : directory.isAbsolute = true)
    {value : Data} {path : Text} (hpath : path ∈ directoriesOf (some directory) value) :
    IsAbsolute path := by
  obtain ⟨text, -, rfl⟩ := List.mem_map.1 hpath
  exact isAbsolute_located h text

theorem isAbsolute_of_mem_viewHints {directory : Path} (h : directory.isAbsolute = true)
    {e : Text × List Text} (he : e ∈ (reading (some directory) members).viewHints.entries)
    {path : Text} (hpath : path ∈ e.2) : IsAbsolute path := by
  have hlisted : path ∈ (reading (some directory) members).viewHints.listed e.1 := by
    rw [Table.listed, Table.get?_eq_some_iff.2 he]
    exact hpath
  unfold reading at hlisted
  dsimp only at hlisted
  rw [addHint_eq, Table.listed_foldl_extend, namespacesOf, foldl_addNamespace] at hlisted
  rcases List.mem_append.1 hlisted with hlisted | hlisted
  · obtain ⟨value, hvalue⟩ := Table.mem_listed_ofList hlisted
    exact isAbsolute_of_mem_directoriesOf h hvalue
  · obtain ⟨hint, -, hvalue⟩ := List.mem_flatMap.1 hlisted
    exact isAbsolute_of_mem_directoriesOf h hvalue

/-- **Dump.** Members with distinct keys stand for the same configuration in the native form, in
which every namespace is a string and there are no further paths. Seen from an absolute directory,
the paths for views, those of the hints and the anonymous ones are all absolute. -/
theorem ofData_native (base : Option Path) (hkeys : (Data.object members).Distinct)
    (h : WellShaped members) :
    ∃ config, ofData base (.object members) = .ok config ∧
      ofData base (.object (native members)) = .ok config ∧
      (∀ e ∈ partsAt (native members) "namespaces".toList, ∃ text, e.2 = .text text) ∧
      (native members).lookup "paths".toList = none ∧
      ∀ directory ∈ base, directory.isAbsolute = true →
        (∀ path ∈ config.viewPaths, IsAbsolute path) ∧
        (∀ e ∈ config.viewHints.entries, ∀ path ∈ e.2, IsAbsolute path) ∧
        ∀ p ∈ config.anonymousPaths, IsAbsolute p.path := by
  have hload : ∀ {members}, WellShaped members →
      ofData base (.object members) = .ok (reading base members) := by
    intro members h
    exact (ofMembers_eq_checked base members).trans (checked_of_forall (wellShaped_iff.1 h) _)
  refine ⟨reading base members, hload h, ?_, ?_, lookup_native_paths, ?_⟩
  · rw [hload (wellShaped_native h), reading_native h hkeys]
  · intro e he
    rw [partsAt_native_namespaces h] at he
    exact Data.isText_iff.1 (List.mem_filter.1 he).2
  · rintro directory rfl habsolute
    refine ⟨fun path hpath => ?_, fun e he path => isAbsolute_of_mem_viewHints habsolute he,
      fun p hp => ?_⟩
    · obtain ⟨text, -, rfl⟩ := List.mem_map.1 hpath
      exact isAbsolute_located habsolute text
    · obtain ⟨value, -, rfl⟩ := List.mem_map.1 hp
      exact isAbsolute_located habsolute _

/-- A dump in which a list among the namespaces is for a hint that has a path already. -/
def mailDump : Text :=
  "\x7b\"namespaces\":\x7b\"mail\":[\"m\"],\"ui\":\"Ui\"\x7d,".toList ++
    "\"view_hints\":\x7b\"icons\":\"i\",\"mail\":[\"/n\"]\x7d,".toList ++
    "\"view_paths\":\"v\",\"paths\":[\"p\"],".toList ++
    "\"anonymous_paths\":[\"a\",\x7b\"path\":\"/b\",\"prefix\":\"ui\"\x7d]\x7d".toList

def mailMembers : List (Text × Data) :=
  [("namespaces".toList, .object
      [("mail".toList, .strings ["m".toList]), ("ui".toList, .text "Ui".toList)]),
    ("view_hints".toList, .object
      [("icons".toList, .text "i".toList), ("mail".toList, .strings ["/n".toList])]),
    ("view_paths".toList, .text "v".toList),
    ("paths".toList, .strings ["p".toList]),
    ("anonymous_paths".toList, .list [.text "a".toList,
      .object [("path".toList, .text "/b".toList), ("prefix".toList, .text "ui".toList)]])]

theorem ofData_native_mail :
    Json.read mailDump = .ok (.object mailMembers) ∧ WellShaped mailMembers ∧
    ∃ config, ofData (some ⟨.single, ["srv".toList]⟩) (.object mailMembers) = .ok config ∧
      ofData (some ⟨.single, ["srv".toList]⟩) (.object (native mailMembers)) = .ok config ∧
      config.viewHints.entries =
        [("mail".toList, ["/srv/m".toList, "/n".toList]), ("icons".toList, ["/srv/i".toList])] ∧
      config.viewPaths = ["/srv/v".toList, "/srv/p".toList] ∧
      config.anonymousPaths = [⟨"/srv/a".toList, none⟩, ⟨"/b".toList, some "ui".toList⟩] ∧
      (∀ path ∈ config.viewPaths, IsAbsolute path) ∧
      ∀ p ∈ config.anonymousPaths, IsAbsolute p.path := by
  have hread : Json.read mailDump = .ok (.object mailMembers) := rfl
  have hshape : WellShaped mailMembers := wellShaped_iff.2 (by decide)
  obtain ⟨config, hload, hnative, -, -, habsolute⟩ :=
    ofData_native (some ⟨.single, ["srv".toList]⟩) (Json.distinct_of_read hread) hshape
  obtain ⟨hviews, -, hanonymous⟩ := habsolute _ rfl rfl
  refine ⟨hread, hshape, config, hload, hnative, ?_, ?_, ?_, hviews, hanonymous⟩ <;>
  · cases hload
    rfl

end Config

end ComponentTags
