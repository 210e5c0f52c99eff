import ComponentTags.File.Views
import ComponentTags.Proofs.Replacing

/-!
# Where a view is found

The file of a view is looked up in some directories. It lies under one of them if the name of the
view does not begin with a dot or a slash; the name of a file from the root on is taken as it is,
in whatever directory it is looked up (`join_relativeFile`).

1. The directories and the part of the name that is looked up in them (`searched?`) tell all the
   files that are tried (`candidates_eq`), and there is no slash in that part
   (`slash_not_mem_of_searched?`).
2. The part begins with a dot if and only if its file has a root (`root_relativeFile_iff`), and
   only a path without a root is seen from the directory (`Path.join_of_relative`).
3. Every dot of the part becomes a slash, so the only dots in the names of the file come with the
   extension (`exists_splitOn_slashed`). With a proper extension none of the names is `..`
   (`ProperExtension.names_relativeFile`), and so the file stays under its directory when both are
   resolved (`Path.resolveFrom_append`).
-/

namespace ComponentTags

open Text

/-! ## Paths under a directory -/

namespace Path

variable {directory p : Path} {names parts : List Text}

/-- The name that leads to the directory above. -/
def above : Text :=
  ['.', '.']

theorem join_of_relative (h : p.root = .relative) :
    directory.join p = ⟨directory.root, directory.parts ++ p.parts⟩ := by
  simp [join, isAbsolute, h]

theorem join_of_isAbsolute (h : p.isAbsolute = true) : directory.join p = p :=
  if_pos h

theorem foldl_climb (h : above ∉ names) : names.foldl climb parts = parts ++ names := by
  induction names generalizing parts with
  | nil => simp
  | cons name names ih =>
    obtain ⟨hname, hnames⟩ := not_or.1 (mt List.mem_cons.2 h)
    have hclimb : climb parts name = parts ++ [name] := if_neg (Ne.symm hname)
    rw [List.foldl_cons, hclimb, ih hnames, List.append_assoc]
    rfl

/-- What is under a directory stays under it, wherever the directory is. -/
theorem resolveFrom_append (base : Path) (h : above ∉ names) :
    base.resolveFrom ⟨directory.root, directory.parts ++ names⟩ =
      ⟨.single, (base.resolveFrom directory).parts ++ names⟩ := by
  have hparts : (base.join ⟨directory.root, directory.parts ++ names⟩).parts =
      (base.join directory).parts ++ names := by
    cases hroot : directory.root <;> simp [join, isAbsolute, hroot]
  rw [resolveFrom, hparts, List.foldl_append, foldl_climb h]
  rfl

theorem rootOf_eq_relative_iff {text : Text} : rootOf text = .relative ↔ text.head? ≠ some '/' := by
  unfold rootOf
  split
  · simp
  · simp
  · simp
  · next hno =>
    refine iff_of_true rfl fun hhead => ?_
    obtain ⟨rest, rfl⟩ := List.head?_eq_some_iff.1 hhead
    exact hno rest rfl

end Path

namespace FileViews

variable {v : FileViews} {fs : FileSystem} {name view extension : Text} {directories : List Path}
  {p : Path}

/-! ## What is looked up -/

/-- The directories in which a view is looked up, and the part of its name that is looked up there;
a name with more than one hint is not looked up. -/
def searched? (v : FileViews) (name : Text) : Option (List Path × Text) :=
  match splitBy Name.hintMark (plainName name) with
  | [hint, view] => some ((v.hints.get? hint).getD [], view)
  | _ :: _ :: _ :: _ => none
  | _ => some (v.paths, plainName name)

/-- The file of a view in its directory. -/
def relativeFile (view extension : Text) : Path :=
  Path.ofText (replaceChar '.' ['/'] view ++ ['.'] ++ extension)

theorem candidates_eq (v : FileViews) (name : Text) :
    v.candidates name =
      match v.searched? name with
      | some (directories, view) => .ok (v.filesUnder directories view)
      | none => .error ⟨plainName name⟩ := by
  unfold candidates searched?
  dsimp only
  generalize splitBy Name.hintMark (plainName name) = texts
  match texts with
  | [] => rfl
  | [_] => rfl
  | [_, _] => rfl
  | _ :: _ :: _ :: _ => rfl

theorem mem_filesUnder_iff :
    p ∈ v.filesUnder directories view ↔
      ∃ d ∈ directories, ∃ e ∈ v.extensions, p = d.join (relativeFile view e) := by
  simp [filesUnder, relativeFile, eq_comm]

theorem mem_of_mem_between {α : Type} {hit : Cursor → Option (α × Nat)} {c : Cursor} {text : Text}
    {x : Char} (ht : text ∈ Piece.between (c.pieces hit)) (hx : x ∈ text) : x ∈ c.rest := by
  induction c using Cursor.pieces_induction hit generalizing text with
  | nil c hr =>
    rw [Cursor.pieces_nil hr, Piece.between, List.mem_singleton] at ht
    simp [ht] at hx
  | plain c a rest hr hh ih =>
    rw [Cursor.rest_next, hr, List.drop_one, List.tail_cons] at ih
    rw [Cursor.pieces_plain hr hh, Piece.between] at ht
    rw [hr, List.mem_cons]
    split at ht
    · next hnil => simp_all
    · next first texts hbetween =>
      rcases List.mem_cons.1 ht with rfl | ht
      · rcases List.mem_cons.1 hx with rfl | hx
        · exact .inl rfl
        · exact .inr (ih (by simp [hbetween]) hx)
      · exact .inr (ih (by simp [hbetween, ht]) hx)
  | found c item n hr hh ih =>
    rw [Cursor.pieces_of_hit hr hh, Piece.between, List.mem_cons] at ht
    rcases ht with rfl | ht
    · simp at hx
    · exact (Cursor.suffix_rest_next_advance c (n - 1)).subset (ih ht hx)

theorem slash_not_mem_of_searched? (h : v.searched? name = some (directories, view)) :
    '/' ∉ view := by
  have hplain : '/' ∉ plainName name := not_mem_replaceChar (by decide)
  unfold searched? at h
  split at h
  · next hint part hsplit =>
    obtain ⟨-, rfl⟩ := Prod.mk.inj (Option.some.inj h)
    have hpart : part ∈ splitBy Name.hintMark (plainName name) := by simp [hsplit]
    exact fun hx => hplain (mem_of_mem_between hpart hx)
  · simp at h
  · obtain ⟨-, rfl⟩ := Prod.mk.inj (Option.some.inj h)
    exact hplain

/-! ## The names of a file -/

/-- A file has a root if and only if a dot is at the front of its view. -/
theorem root_relativeFile_iff (hv : '/' ∉ view) (extension : Text) :
    (relativeFile view extension).root = .relative ↔ view.head? ≠ some '.' := by
  rw [relativeFile, Path.ofText, Path.rootOf_eq_relative_iff]
  cases view with
  | nil => simp [replaceChar]
  | cons a view =>
    have ha : a ≠ '/' := fun h => hv (by simp [h])
    by_cases hdot : a = '.'
    · simp [replaceChar_cons, hdot]
    · simp [replaceChar_cons, hdot, ha]

/-- Only the last name of the file has a dot in it, and it goes on with the extension there. -/
theorem exists_splitOn_slashed (hv : '/' ∉ view) (he : '/' ∉ extension) :
    ∃ front last, (replaceChar '.' ['/'] view ++ ['.'] ++ extension).splitOn '/' =
        front ++ [last ++ '.' :: extension] ∧ (∀ name ∈ front, '.' ∉ name) ∧ '.' ∉ last := by
  induction view with
  | nil =>
    have hlast : '/' ∉ '.' :: extension := by simp [he]
    exact ⟨[], [], List.splitOn_eq_singleton hlast, by simp, by simp⟩
  | cons a view ih =>
    obtain ⟨front, last, hsplit, hfront, hlast⟩ := ih fun h => hv (by simp [h])
    have ha : a ≠ '/' := fun h => hv (by simp [h])
    rw [replaceChar_cons]
    by_cases hdot : a = '.'
    · refine ⟨[] :: front, last, ?_, by simpa using hfront, hlast⟩
      rw [if_pos hdot, List.singleton_append, List.cons_append, List.cons_append,
        List.splitOn_cons_eq_if_modifyHead, if_pos (by simp), hsplit]
      rfl
    · rw [if_neg hdot, List.singleton_append, List.cons_append, List.cons_append,
        List.splitOn_cons_eq_if_modifyHead, if_neg (by simpa using ha), hsplit]
      -- the character goes to the first name, which may be the last one
      cases front with
      | nil => exact ⟨[], a :: last, rfl, by simp, by simp [hlast, Ne.symm hdot]⟩
      | cons first front =>
        refine ⟨(a :: first) :: front, last, rfl, ?_, hlast⟩
        simpa [Ne.symm hdot] using hfront

/-- An extension that goes on with the name it stands behind, and makes more of it than a dot or
two. -/
structure ProperExtension (extension : Text) : Prop where
  no_slash : '/' ∉ extension
  ne_nil : extension ≠ []
  ne_dot : extension ≠ ['.']

theorem ProperExtension.names_relativeFile (he : ProperExtension extension) (hv : '/' ∉ view) :
    (relativeFile view extension).parts ≠ [] ∧
      Path.above ∉ (relativeFile view extension).parts := by
  obtain ⟨front, last, hsplit, hfront, hlast⟩ := exists_splitOn_slashed hv he.no_slash
  have hparts : (relativeFile view extension).parts =
      (front ++ [last ++ '.' :: extension]).filter fun part => part != [] && part != ['.'] := by
    rw [← hsplit]
    rfl
  have hname : ∀ rest : Text, last ++ '.' :: extension = '.' :: rest → extension = rest := by
    intro rest heq
    cases last with
    | nil => exact (List.cons.inj heq).2
    | cons a last => exact absurd (List.cons.inj heq).1 fun h => hlast (by simp [h])
  rw [hparts]
  constructor
  · refine List.ne_nil_of_mem (a := last ++ '.' :: extension) (List.mem_filter.2 ⟨by simp, ?_⟩)
    have hne : last ++ '.' :: extension ≠ ['.'] := fun h => he.ne_nil (hname [] h)
    simpa using hne
  · intro hmem
    rcases List.mem_append.1 (List.mem_of_mem_filter hmem) with h | h
    · exact hfront _ h (by decide)
    · exact he.ne_dot (hname ['.'] (List.mem_singleton.1 h).symm)

/-! ## Where the file is -/

theorem find_of_searched? (h : v.searched? name = some (directories, view)) :
    v.find fs name = .ok ((v.filesUnder directories view).find? fs.isFile) := by
  rw [find, candidates_eq, h]
  rfl

theorem exists_searched?_of_find (h : v.find fs name = .ok (some p)) :
    ∃ directories view, v.searched? name = some (directories, view) ∧
      (v.filesUnder directories view).find? fs.isFile = some p := by
  cases hs : v.searched? name with
  | none =>
    rw [find, candidates_eq, hs] at h
    simp [Except.map] at h
  | some place =>
    rw [find_of_searched? hs] at h
    exact ⟨place.1, place.2, rfl, Except.ok.inj h⟩

/-- A file is the directory with its own names behind, unless a dot is at the front of its view. -/
theorem join_relativeFile (hv : '/' ∉ view) (d : Path) (e : Text) :
    if view.head? = some '.' then
      d.join (relativeFile view e) = relativeFile view e ∧
        (relativeFile view e).isAbsolute = true
    else d.join (relativeFile view e) = ⟨d.root, d.parts ++ (relativeFile view e).parts⟩ := by
  have hroot := root_relativeFile_iff hv e
  split
  · next hdot =>
    have habsolute : (relativeFile view e).isAbsolute = true := by
      simpa [Path.isAbsolute, hroot] using hdot
    exact ⟨Path.join_of_isAbsolute habsolute, habsolute⟩
  · next hdot => exact Path.join_of_relative (hroot.2 hdot)

/-- **Views stay in their directories.** A view is looked up in the directories for its name, and
some file is found if there is one at any of the places. If the part of the name that is looked up
there begins with a dot, the file has a root and the directory has no part in it. Otherwise it is
the directory with more names behind; with a proper extension there is at least one, and the file
is under the directory when both are resolved. -/
theorem find_eq_some_under (v : FileViews) (fs : FileSystem) (name : Text) :
    (∀ p, v.find fs name = .ok (some p) →
      ∃ directories view, v.searched? name = some (directories, view) ∧
        ∃ d ∈ directories, ∃ e ∈ v.extensions, fs.isFile p = true ∧
          if view.head? = some '.' then p = relativeFile view e ∧ p.isAbsolute = true
          else ∃ names, p = ⟨d.root, d.parts ++ names⟩ ∧
            (ProperExtension e → names ≠ [] ∧ Path.above ∉ names ∧
              ∀ base : Path, base.resolveFrom p =
                ⟨.single, (base.resolveFrom d).parts ++ names⟩)) ∧
    (∀ directories view, v.searched? name = some (directories, view) →
      ∀ d ∈ directories, ∀ e ∈ v.extensions, fs.isFile (d.join (relativeFile view e)) = true →
        ∃ p, v.find fs name = .ok (some p)) := by
  refine ⟨fun p h => ?_, fun directories view hs d hd e he hfile => ?_⟩
  · obtain ⟨directories, view, hs, hfind⟩ := exists_searched?_of_find h
    have hv := slash_not_mem_of_searched? hs
    obtain ⟨d, hd, e, he, rfl⟩ := mem_filesUnder_iff.1 (List.mem_of_find?_eq_some hfind)
    refine ⟨directories, view, hs, d, hd, e, he, List.find?_some hfind, ?_⟩
    have hjoin := join_relativeFile hv d e
    split at hjoin
    · next hdot =>
      rw [if_pos hdot, hjoin.1]
      exact ⟨rfl, hjoin.2⟩
    · next hdot =>
      rw [if_neg hdot, hjoin]
      refine ⟨(relativeFile view e).parts, rfl, fun hproper => ?_⟩
      obtain ⟨hne, habove⟩ := hproper.names_relativeFile hv
      exact ⟨hne, habove, fun base => Path.resolveFrom_append base habove⟩
  · have hsome : ((v.filesUnder directories view).find? fs.isFile).isSome = true :=
      List.find?_isSome.2 ⟨_, mem_filesUnder_iff.2 ⟨d, hd, e, he, rfl⟩, hfile⟩
    obtain ⟨p, hp⟩ := Option.isSome_iff_exists.1 hsome
    exact ⟨p, by rw [find_of_searched? hs, hp]⟩

/-- A directory for views and two for the views of a hint. -/
def hintedViews : FileViews where
  paths := [Path.ofText "views".toList]
  hints := .ofList [("mail".toList, [Path.ofText "/m".toList, Path.ofText "mails".toList])]

/-- One file under the working directory and one that is not. -/
def twoFiles : FileSystem :=
  .ofList ⟨.single, ["project".toList]⟩
    [(Path.ofText "mails/html/button.php".toList, []), (Path.ofText "/etc/secret.php".toList, [])]

/-- The file in the second directory of the hint. -/
def buttonFile : Path :=
  ⟨.relative, ["mails".toList, "html".toList, "button.php".toList]⟩

/-- The part behind the hint is looked up in both directories of the hint. -/
theorem find_buttonFile_under :
    (hintedViews.find twoFiles " mail::html/button".toList = .ok (some buttonFile) ∧
      ∃ directories view,
        hintedViews.searched? " mail::html/button".toList = some (directories, view) ∧
        ∃ d ∈ directories, ∃ e ∈ hintedViews.extensions, twoFiles.isFile buttonFile = true ∧
          if view.head? = some '.' then
            buttonFile = relativeFile view e ∧ buttonFile.isAbsolute = true
          else ∃ names, buttonFile = ⟨d.root, d.parts ++ names⟩ ∧
            (ProperExtension e → names ≠ [] ∧ Path.above ∉ names ∧
              ∀ base : Path, base.resolveFrom buttonFile =
                ⟨.single, (base.resolveFrom d).parts ++ names⟩)) ∧
    (hintedViews.searched? " mail::html/button".toList =
        some ([Path.ofText "/m".toList, Path.ofText "mails".toList], "html.button".toList) ∧
      twoFiles.isFile ((Path.ofText "mails".toList).join
        (relativeFile "html.button".toList "php".toList)) = true ∧
      ∃ p, hintedViews.find twoFiles " mail::html/button".toList = .ok (some p)) := by
  have hfind : hintedViews.find twoFiles " mail::html/button".toList = .ok (some buttonFile) := by
    rfl
  have hsearched : hintedViews.searched? " mail::html/button".toList =
      some ([Path.ofText "/m".toList, Path.ofText "mails".toList], "html.button".toList) := by rfl
  have hfile : twoFiles.isFile ((Path.ofText "mails".toList).join
      (relativeFile "html.button".toList "php".toList)) = true := by decide
  have hunder := find_eq_some_under hintedViews twoFiles " mail::html/button".toList
  exact ⟨⟨hfind, hunder.1 _ hfind⟩, hsearched, hfile,
    hunder.2 _ _ hsearched _ (by simp) _ (by decide) hfile⟩

/-- A name with a slash at its front: the file is not under the one directory for views. -/
theorem find_slashed_name_not_under :
    hintedViews.find twoFiles "/etc/secret".toList =
        .ok (some ⟨.single, ["etc".toList, "secret.php".toList]⟩) ∧
      hintedViews.searched? "/etc/secret".toList =
        some ([⟨.relative, ["views".toList]⟩], ".etc.secret".toList) ∧
      ¬ ∃ names, Path.mk .single ["etc".toList, "secret.php".toList] =
        ⟨.relative, "views".toList :: names⟩ := by
  refine ⟨by rfl, by rfl, ?_⟩
  rintro ⟨names, h⟩
  simp at h

end FileViews

end ComponentTags
