import ComponentTags.Proofs.AnonymousPaths

/-!
# Places that are added later

Directories may be added at any time, for views or for the views of a hint. They come behind those
that are there (`FileViews.directoriesFor_add`), also when there are many (`directoriesFor_addAll`).
The first file wins, so a view that has a file keeps it, and one that has none may get one from the
added directories alone (`FileViews.find_addAll`). Names that are refused are refused for ever.
-/

namespace ComponentTags

open Text

namespace FileViews

/-- Directories that are added. -/
inductive Addition where
  | directory (path : Path)
  | hint (name : Text) (paths : List Path)

def add (v : FileViews) : Addition → FileViews
  | .directory path => v.withDirectory path
  | .hint name paths => v.withHint name paths

/-- The places with one addition after the other. -/
def addAll (v : FileViews) (additions : List Addition) : FileViews :=
  additions.foldl add v

/-! ## Directories by hint -/

/-- The hint of a name, if it has one, and the part that is looked up; nothing for a name with more
than one hint. -/
def hinted? (name : Text) : Option (Option Text × Text) :=
  match splitBy Name.hintMark (plainName name) with
  | [hint, view] => some (some hint, view)
  | _ :: _ :: _ :: _ => none
  | _ => some (none, plainName name)

/-- The directories for views with the hint, or for those without one. -/
def directoriesFor (v : FileViews) : Option Text → List Path
  | none => v.paths
  | some hint => v.directories hint

/-- The directories of an addition for views with the hint, or for those without one. -/
def Addition.directoriesFor : Addition → Option Text → List Path
  | .directory path, none => [path]
  | .hint name paths, some key => if key = name then paths else []
  | _, _ => []

theorem searched?_eq (v : FileViews) (name : Text) :
    v.searched? name = (hinted? name).map fun found => (v.directoriesFor found.1, found.2) := by
  unfold searched? hinted?
  generalize splitBy Name.hintMark (plainName name) = texts
  match texts with
  | [] => rfl
  | [_] => rfl
  | [_, _] => rfl
  | _ :: _ :: _ :: _ => rfl

/-- **Step.** What is added comes behind what is there. -/
theorem directoriesFor_add (v : FileViews) (a : Addition) (hint : Option Text) :
    (v.add a).directoriesFor hint = v.directoriesFor hint ++ a.directoriesFor hint := by
  cases a with
  | directory path =>
    cases hint with
    | none => rfl
    | some hint => exact (List.append_nil _).symm
  | hint name paths =>
    cases hint with
    | none => exact (List.append_nil _).symm
    | some hint =>
      show (v.withHint name paths).directories hint = _
      rw [directories_withHint, directoriesFor, Addition.directoriesFor]
      split
      · rfl
      · exact (List.append_nil _).symm

/-- **Run.** All that is added comes behind what is there, in the order of the additions. -/
theorem directoriesFor_addAll (v : FileViews) (additions : List Addition) (hint : Option Text) :
    (v.addAll additions).directoriesFor hint =
      v.directoriesFor hint ++ additions.flatMap fun a => a.directoriesFor hint := by
  induction additions generalizing v with
  | nil => exact (List.append_nil _).symm
  | cons a additions ih =>
    show ((v.add a).addAll additions).directoriesFor hint = _
    rw [ih, directoriesFor_add, List.flatMap_cons, List.append_assoc]

theorem extensions_addAll (v : FileViews) (additions : List Addition) :
    (v.addAll additions).extensions = v.extensions := by
  induction additions generalizing v with
  | nil => rfl
  | cons a additions ih =>
    show ((v.add a).addAll additions).extensions = _
    rw [ih]
    cases a <;> rfl

/-! ## Files -/

theorem filesUnder_append (v : FileViews) (directories more : List Path) (view : Text) :
    v.filesUnder (directories ++ more) view =
      v.filesUnder directories view ++ v.filesUnder more view :=
  List.flatMap_append

/-- The files that additions bring for a view. -/
def filesAdded (v : FileViews) (additions : List Addition) (name : Text) : List Path :=
  match hinted? name with
  | some (hint, view) => v.filesUnder (additions.flatMap fun a => a.directoriesFor hint) view
  | none => []

theorem find_addAll (v : FileViews) (fs : FileSystem) (additions : List Addition) (name : Text) :
    (v.addAll additions).find fs name = (v.find fs name).map fun found =>
      found.or ((v.filesAdded additions name).find? fs.isFile) := by
  rw [find, candidates_eq, searched?_eq, find, candidates_eq, searched?_eq, filesAdded]
  cases hinted? name with
  | none => rfl
  | some found =>
    obtain ⟨hint, view⟩ := found
    have hfiles : ∀ directories, (v.addAll additions).filesUnder directories view =
        v.filesUnder directories view := by
      intro directories
      rw [filesUnder, extensions_addAll]
      rfl
    have hfound : ((v.addAll additions).filesUnder
        ((v.addAll additions).directoriesFor hint) view).find? fs.isFile =
          ((v.filesUnder (v.directoriesFor hint) view).find? fs.isFile).or
            ((v.filesUnder (additions.flatMap fun a => a.directoriesFor hint) view).find?
              fs.isFile) := by
      rw [directoriesFor_addAll, hfiles, filesUnder_append, List.find?_append]
    exact congrArg Except.ok hfound

/-- **Additions.** Directories that are added change no view that has a file and no name that is
refused: the file is the same as before, or there was none and it is the first of the files that the
additions bring. -/
theorem find_addAll_iff (v : FileViews) (fs : FileSystem) (additions : List Addition)
    (name : Text) :
    (∀ p, v.find fs name = .ok (some p) → (v.addAll additions).find fs name = .ok (some p)) ∧
    (∀ e, (v.addAll additions).find fs name = .error e ↔ v.find fs name = .error e) ∧
    (∀ p, (v.addAll additions).find fs name = .ok (some p) ↔
      v.find fs name = .ok (some p) ∨
        (v.find fs name = .ok none ∧
          (v.filesAdded additions name).find? fs.isFile = some p)) := by
  rw [find_addAll]
  cases v.find fs name with
  | error e => simp [Except.map]
  | ok found =>
    cases found with
    | none => simp [Except.map]
    | some p => simp [Except.map]

/-- Two files of one view and one of another. -/
def threeFiles : FileSystem :=
  .ofList ⟨.single, []⟩ [(Path.ofText "/a/alert.php".toList, []),
    (Path.ofText "/b/alert.php".toList, []), (Path.ofText "/b/card.php".toList, [])]

/-- The view with a file keeps it, and the other one gets a file from the added directory. -/
theorem find_addAll_threeFiles :
    let v : FileViews := { paths := [Path.ofText "/a".toList] }
    let additions := [Addition.directory (Path.ofText "/b".toList)]
    (v.find threeFiles "alert".toList = .ok (some (Path.ofText "/a/alert.php".toList)) ∧
      (v.addAll additions).find threeFiles "alert".toList =
        .ok (some (Path.ofText "/a/alert.php".toList))) ∧
    (v.find threeFiles "card".toList = .ok none ∧
      (v.addAll additions).find threeFiles "card".toList =
        .ok (some (Path.ofText "/b/card.php".toList))) := by
  intro v additions
  have hfound : v.find threeFiles "alert".toList =
      .ok (some (Path.ofText "/a/alert.php".toList)) := rfl
  have hmissing : v.find threeFiles "card".toList = .ok none := rfl
  have hkept := (find_addAll_iff v threeFiles additions "alert".toList).1
  have hnew := (find_addAll_iff v threeFiles additions "card".toList).2.2
  exact ⟨⟨hfound, hkept _ hfound⟩, hmissing, (hnew _).2 (.inr ⟨hmissing, rfl⟩)⟩

end FileViews

end ComponentTags
