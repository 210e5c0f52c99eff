import ComponentTags.Proofs.ListTables
import ComponentTags.Proofs.Resolution
import ComponentTags.Proofs.ViewFiles
import ComponentTags.Proofs.Written

/-!
# Tags in the directory of a label

The tag `label::name` stands for a view in one of the directories with that label. Three parts have
to agree for this: the configuration gives a directory the digest of its label for a hint, the
finder keeps the directories of one hint together, and the resolver looks for the view under that
hint. This says which files make the tag stand for a view (`Resolver.outcome_anonymousPath_iff`),
provided that no other directory comes under the same hint (`Config.TellsApart`).

1. A digest is made of word characters (`Digest.isWordChar_of_mem`), so `digest::name` is cut at the
   mark in it and nowhere else (`FileViews.searched?_hinted`).
2. The directories under the digest of a label are those with the label
   (`FileViews.directories_ofConfig`).
3. Every directory with the label asks for the same two views, and the others ask for none
   (`Resolver.nameInPath?_hinted`). So the first view with a file in any of them is found
   (`Resolver.outcome_apply_anonymousPath`).

The name may be empty. Then the second view is `.index`, which is looked up from the root on.
-/

namespace ComponentTags

open Text

/-! ## Digests -/

namespace Digest

theorem isWordChar_digitChar {n : Nat} (h : n < 16) : isWordChar (Nat.digitChar n) = true := by
  have hall : ∀ n < 16, isWordChar (Nat.digitChar n) = true := by decide
  exact hall n h

theorem isWordChar_of_mem {text : Text} {x : Char} (h : x ∈ ofText text) : isWordChar x = true := by
  unfold ofText ofBytes at h
  obtain ⟨w, -, hw⟩ := List.mem_flatMap.1 h
  obtain ⟨byte, -, hbyte⟩ := List.mem_flatMap.1 hw
  have hlt := byte.toNat_lt
  unfold hexByte at hbyte
  rcases List.mem_cons.1 hbyte with rfl | hbyte
  · exact isWordChar_digitChar (by omega)
  · obtain rfl := List.mem_singleton.1 hbyte
    exact isWordChar_digitChar (by omega)

end Digest

/-! ## Names with a hint -/

namespace Text

variable {p : Char → Bool} {old : Char} {new t : Text}

theorem replaceChar_of_not_mem (h : old ∉ t) : replaceChar old new t = t := by
  induction t with
  | nil => rfl
  | cons a t ih =>
    rw [List.mem_cons, not_or] at h
    rw [replaceChar_cons, if_neg (Ne.symm h.1), ih h.2]
    rfl

theorem trim_of_forall (h : ∀ x ∈ t, p x = false) : trim p t = t := by
  have hd : t.dropWhile p = t := by
    cases t with
    | nil => rfl
    | cons a t => simp [h a (by simp)]
  have ht := trimEnd_append (p := p) (u := []) (v := t) (by simp)
    fun x hx => h x (List.mem_of_getLast? hx)
  rw [List.append_nil] at ht
  rw [trim, hd, ht]

end Text

theorem Name.splitBy_hinted {hint view : Text} (hh : ':' ∉ hint) (hv : ':' ∉ view) :
    splitBy Name.hintMark (hint ++ Name.hintMark ++ view) = [hint, view] := by
  have hm : Name.hintMark ≠ [] := by decide
  have hindex : indexOf? Name.hintMark (hint ++ Name.hintMark ++ view) = some hint.length :=
    indexOf?_append_of_not_mem hh List.not_mem_nil view
  have hno : indexOf? Name.hintMark view = none := by
    rw [indexOf?_eq_none_iff]
    exact fun h => hv (h.subset (by decide))
  have hr : (Cursor.start (hint ++ Name.hintMark ++ view)).rest =
      (hint ++ Name.hintMark) ++ view := rfl
  have hrest := Cursor.rest_advance_append hr
  rw [List.length_append] at hrest
  rw [splitBy, between_pieces_literal hm, hr]
  simp only [hindex]
  rw [between_pieces_literal hm, hrest, hno, List.append_assoc, List.take_left]

theorem Name.hint_eq_of_prefix {hint label name : Text} (hl : ':' ∉ label) (hn : ':' ∉ name) :
    hint ++ Name.hintMark <+: label ++ Name.hintMark ++ name ↔ hint = label := by
  constructor
  · rintro ⟨w, hw⟩
    have hcount := congrArg (List.count ':') hw
    have h₀ := List.count_eq_zero_of_not_mem hl
    have h₁ := List.count_eq_zero_of_not_mem hn
    simp only [List.count_append, h₀, h₁] at hcount
    have hh : ':' ∉ hint := List.count_eq_zero.1 (by omega)
    have htake := congrArg (List.takeWhile (· != ':')) hw
    rw [List.append_assoc, List.append_assoc] at htake
    exact (takeWhile_ne_append hh).symm.trans (htake.trans (takeWhile_ne_append hl))
  · rintro rfl
    exact List.prefix_append _ _

/-! ## The finder -/

/-- The hint for a label is for the directories with that label alone: their digest is that of no
other text, no hint of the configuration is the same, and no directory without a label is called
like the label. -/
structure Config.TellsApart (config : Config) (label : Text) : Prop where
  digest : ∀ e ∈ config.anonymousPaths,
    Digest.ofText e.hashed = Digest.ofText label → e.hashed = label
  no_hint : Digest.ofText label ∉ config.viewHints.keys
  no_path : ∀ e ∈ config.anonymousPaths, e.label.getD [] = [] → e.path ≠ label

theorem Config.TellsApart.hash_eq_iff {config : Config} {label : Text} (hlabel : label ≠ [])
    (h : config.TellsApart label) {e : AnonymousPath} (he : e ∈ config.anonymousPaths) :
    e.hash = Digest.ofText label ↔ e.label = some label := by
  rw [AnonymousPath.hash_eq]
  constructor
  · intro hd
    have htext := h.digest e he hd
    unfold AnonymousPath.hashed at htext
    split at htext
    · next c cs hl => rw [hl, htext]
    · next hno =>
      refine absurd htext (h.no_path e he ?_)
      rcases hl : e.label with _ | _ | ⟨c, cs⟩
      · rfl
      · rfl
      · exact absurd hl (hno c cs)
  · intro hl
    obtain ⟨c, cs, rfl⟩ := List.exists_cons_of_ne_nil hlabel
    rw [AnonymousPath.hashed, hl]

namespace FileViews

variable {v : FileViews} {fs : FileSystem} {hint view : Text} {config : Config} {label : Text}

/-- The directories for the views of a hint. -/
def directories (v : FileViews) (hint : Text) : List Path :=
  (v.hints.get? hint).getD []

theorem directories_withHint (v : FileViews) (key hint : Text) (paths : List Path) :
    (v.withHint key paths).directories hint =
      if hint = key then v.directories hint ++ paths else v.directories hint :=
  v.hints.listed_extend key hint paths

/-- Directories that are added one after the other come behind those that are there, each under its
own hint. -/
theorem directories_foldl {α : Type} (key : α → Text) (paths : α → List Path) (l : List α)
    (v : FileViews) (hint : Text) :
    (l.foldl (fun v a => v.withHint (key a) (paths a)) v).directories hint =
      v.directories hint ++ (l.filter fun a => key a = hint).flatMap paths := by
  have hhints : (l.foldl (fun v a => v.withHint (key a) (paths a)) v).hints =
      l.foldl (fun t a => t.extend (key a) (paths a)) v.hints :=
    (List.foldl_hom FileViews.hints fun _ _ => rfl).symm
  show (l.foldl (fun v a => v.withHint (key a) (paths a)) v).hints.listed hint = _
  rw [hhints, Table.listed_foldl_extend]
  rfl

theorem extensions_foldl {α : Type} (key : α → Text) (paths : α → List Path) (l : List α)
    (v : FileViews) :
    (l.foldl (fun v a => v.withHint (key a) (paths a)) v).extensions = v.extensions := by
  induction l generalizing v with
  | nil => rfl
  | cons a l ih => exact ih _

theorem extensions_ofConfig (config : Config) :
    (ofConfig config).extensions = ({} : FileViews).extensions := by
  unfold ofConfig
  rw [extensions_foldl, extensions_foldl]

/-- The directories under the digest of a label are those with the label. -/
theorem directories_ofConfig (hlabel : label ≠ []) (h : config.TellsApart label) :
    (ofConfig config).directories (Digest.ofText label) =
      (config.anonymousPaths.filter fun e => e.label = some label).map
        fun e => Path.ofText e.path := by
  have hnone : (config.viewHints.entries.filter fun e => e.1 = Digest.ofText label) = [] := by
    rw [List.filter_eq_nil_iff]
    intro e he hkey
    exact h.no_hint (List.mem_map.2 ⟨e, he, by simpa using hkey⟩)
  have hsame : (config.anonymousPaths.filter fun e => e.hash = Digest.ofText label) =
      config.anonymousPaths.filter fun e => e.label = some label := by
    refine List.filter_congr fun e he => ?_
    simp only [h.hash_eq_iff hlabel he]
  unfold ofConfig
  rw [directories_foldl, directories_foldl, hnone, hsame]
  simp only [directories, Table.get?_empty, List.flatMap_nil, Option.getD_none, List.nil_append]
  exact List.map_eq_flatMap.symm

theorem searched?_hinted (hh : ∀ x ∈ hint, isWordChar x = true)
    (hv : ∀ x ∈ view, Written.isPlainNameChar x = true) :
    v.searched? (hint ++ Name.hintMark ++ view) = some (v.directories hint, view) := by
  have hchar : ∀ x ∈ hint ++ Name.hintMark ++ view, isTagNameChar x = true := by
    intro x hx
    rcases List.mem_append.1 hx with hx | hx
    · rcases List.mem_append.1 hx with hx | hx
      · exact isTagNameChar_of_isWordChar (hh x hx)
      · have hcolon : x = ':' := by simpa [Name.hintMark] using hx
        rw [hcolon]
        decide
    · have := hv x hx
      simp only [Written.isPlainNameChar, Bool.or_eq_true] at this
      rcases this with (h | h) | h <;> simp [isTagNameChar, h]
  have hplain : plainName (hint ++ Name.hintMark ++ view) = hint ++ Name.hintMark ++ view := by
    have hstrip : stripBlanks (hint ++ Name.hintMark ++ view) = hint ++ Name.hintMark ++ view :=
      trim_of_forall fun x hx =>
        isBlank_of_isAttributeNameChar (isAttributeNameChar_of_isTagNameChar (hchar x hx))
    rw [plainName, hstrip, replaceChar_of_not_mem fun h => absurd (hchar _ h) (by decide)]
  have hsplit : splitBy Name.hintMark (hint ++ Name.hintMark ++ view) = [hint, view] :=
    Name.splitBy_hinted (fun h => absurd (hh _ h) (by decide)) fun h => absurd (hv _ h) (by decide)
  simp only [searched?, hplain, hsplit]
  rfl

/-- Whether the view behind the digest of a label exists: some directory with the label has a file
for it. -/
theorem exists_toViews_hinted (fs : FileSystem) (hlabel : label ≠ []) (h : config.TellsApart label)
    (hv : ∀ x ∈ view, Written.isPlainNameChar x = true) :
    ∃ found, (ofConfig config).toViews fs (Digest.ofText label ++ Name.hintMark ++ view) =
        .ok found ∧
      (found = true ↔ ∃ e ∈ config.anonymousPaths, e.label = some label ∧
        ∃ x ∈ (ofConfig config).extensions,
          fs.isFile ((Path.ofText e.path).join (relativeFile view x)) = true) := by
  have hs : (ofConfig config).searched? (Digest.ofText label ++ Name.hintMark ++ view) =
      some ((ofConfig config).directories (Digest.ofText label), view) :=
    searched?_hinted (fun x hx => Digest.isWordChar_of_mem hx) hv
  rw [directories_ofConfig hlabel h] at hs
  refine ⟨_, by rw [toViews, find_of_searched? hs]; rfl, ?_⟩
  rw [List.find?_isSome]
  simp only [mem_filesUnder_iff, List.mem_map, List.mem_filter, decide_eq_true_eq]
  constructor
  · rintro ⟨_, ⟨_, ⟨e, ⟨he, hl⟩, rfl⟩, x, hx, rfl⟩, hfile⟩
    exact ⟨e, he, hl, x, hx, hfile⟩
  · rintro ⟨e, he, hl, x, hx, hfile⟩
    exact ⟨_, ⟨_, ⟨e, ⟨he, hl⟩, rfl⟩, x, hx, rfl⟩, hfile⟩

end FileViews

/-! ## The resolver -/

namespace Resolver

variable {r : Resolver} {label name : Text}

theorem nameInPath?_hinted (hlabel : label ≠ []) (hl : ':' ∉ label) (hn : ':' ∉ name)
    (e : AnonymousPath) :
    nameInPath? e (label ++ Name.hintMark ++ name) =
      if e.label = some label then some name else none := by
  have hindex : indexOf? Name.hintMark (label ++ Name.hintMark ++ name) = some label.length :=
    indexOf?_append_of_not_mem hl List.not_mem_nil name
  have hbegins : (e.label.getD [] ++ Name.hintMark).isPrefixOf (label ++ Name.hintMark ++ name) =
      decide (e.label = some label) := by
    rw [Bool.eq_iff_iff, List.isPrefixOf_iff_prefix, Name.hint_eq_of_prefix hl hn,
      decide_eq_true_eq]
    cases e.label with
    | none => simpa using Ne.symm hlabel
    | some t => simp
  have hdrop : (label ++ Name.hintMark ++ name).drop (label.length + 2) = name :=
    List.drop_left' (by simp [Name.hintMark])
  rw [nameInPath?_eq]
  simp only [hindex, hbegins, hdrop, decide_eq_true_eq]

theorem findSome?_ite {α β : Type} (p : α → Prop) [DecidablePred p] (x : Option β) (l : List α)
    (h : x ≠ none → ∃ a ∈ l, p a) : (l.findSome? fun a => if p a then x else none) = x := by
  cases x with
  | none => simp
  | some b =>
    obtain ⟨a, ha, hp⟩ := h (by simp)
    induction l with
    | nil => simp at ha
    | cons c l ih =>
      by_cases hc : p c
      · simp [hc]
      · have hmem : a ∈ l := (List.mem_cons.1 ha).resolve_left fun e => hc (e ▸ hp)
        simpa [hc] using ih (fun _ => ⟨a, hmem, hp⟩) hmem

/-- All directories with the label ask for the same two views, and so the first of these that
exists is what the tag stands for. -/
theorem outcome_apply_anonymousPath (r : Resolver) (label name : Text) {found foundIndex : Bool}
    {view tag : Text} (hview : view = Digest.ofText label ++ Name.hintMark ++ name)
    (htag : tag = label ++ Name.hintMark ++ name) (hlabel : label ≠ []) (hl : ':' ∉ label)
    (hn : ':' ∉ name) (hfound : r.views view = .ok found)
    (hindex : r.views (view ++ ".index".toList) = .ok foundIndex)
    (hsome : found = true ∨ foundIndex = true →
      ∃ e ∈ r.config.anonymousPaths, e.label = some label) :
    (r.apply tag .anonymousPath).outcome = .ok
      (if found then some ⟨.view, view, tag⟩
        else if foundIndex then some ⟨.view, view ++ ".index".toList, tag⟩ else none) := by
  obtain ⟨x, hx⟩ : ∃ x, x = if found then some view
      else if foundIndex then some (view ++ ".index".toList) else none := ⟨_, rfl⟩
  have hpath : ∀ e, (r.viewInPath tag e).outcome =
      .ok (if e.label = some label then x else none) := by
    intro e
    unfold viewInPath
    rw [htag, nameInPath?_hinted hlabel hl hn]
    by_cases he : e.label = some label
    · have hhash : e.hash ++ Name.hintMark ++ name = view := by
        obtain ⟨c, cs, rfl⟩ := List.exists_cons_of_ne_nil hlabel
        rw [hview, AnonymousPath.hash, he]
      rw [if_pos he, if_pos he, hx]
      simp only [hhash, viewSpellings, firstExisting, hfound, hindex]
      cases found <;> cases foundIndex <;> rfl
    · rw [if_neg he, if_neg he]
      rfl
  have hfind : (r.config.anonymousPaths.findSome? fun e =>
      if e.label = some label then x else none) = x := by
    refine findSome?_ite _ x _ fun hne => hsome ?_
    by_contra hno
    rw [not_or, Bool.not_eq_true, Bool.not_eq_true] at hno
    exact hne (by simp [hx, hno])
  show (Traced.firstSome (r.viewInPath tag) r.config.anonymousPaths >>= fun found =>
    pure (found.map (Target.mk .view · tag))).outcome = _
  rw [Traced.outcome_bind, Traced.outcome_firstSome hpath, hfind, hx]
  cases found <;> cases foundIndex <;> rfl

end Resolver

/-! ## Files under a directory -/

/-- The file of a view under the directory; the dots of the view divide directories. -/
def AnonymousPath.file (e : AnonymousPath) (view extension : Text) : Path :=
  ⟨(Path.ofText e.path).root,
    (Path.ofText e.path).parts ++ (FileViews.relativeFile view extension).parts⟩

/-- Some file for the view is under the directory. -/
def AnonymousPath.Holds (e : AnonymousPath) (fs : FileSystem) (extensions : List Text)
    (view : Text) : Prop :=
  ∃ x ∈ extensions, fs.isFile (e.file view x) = true

instance (e : AnonymousPath) (fs : FileSystem) (extensions : List Text) (view : Text) :
    Decidable (e.Holds fs extensions view) :=
  List.decidableBEx (fun x => fs.isFile (e.file view x) = true) extensions

theorem AnonymousPath.join_relativeFile (e : AnonymousPath) {view : Text} (hslash : '/' ∉ view)
    (hdot : view.head? ≠ some '.') (extension : Text) :
    (Path.ofText e.path).join (FileViews.relativeFile view extension) = e.file view extension := by
  have hjoin := FileViews.join_relativeFile hslash (Path.ofText e.path) extension
  rwa [if_neg hdot] at hjoin

/-- The file of an index view is under the directory too, except for the empty name: then it has a
root, and the directory has no part in it. -/
theorem AnonymousPath.exists_index_iff (e : AnonymousPath) (fs : FileSystem) (config : Config)
    {name : Text} (hslash : '/' ∉ name ++ ".index".toList) (hdot : name.head? ≠ some '.') :
    (∃ x ∈ (FileViews.ofConfig config).extensions, fs.isFile ((Path.ofText e.path).join
        (FileViews.relativeFile (name ++ ".index".toList) x)) = true) ↔
      if name = [] then ∃ x ∈ (FileViews.ofConfig config).extensions,
        fs.isFile ⟨.single, ["index".toList ++ '.' :: x]⟩ = true
      else e.Holds fs (FileViews.ofConfig config).extensions (name ++ ".index".toList) := by
  split
  · next hnil =>
    refine exists_congr fun x => and_congr_right fun hx => ?_
    have hroot : ∀ x ∈ ({} : FileViews).extensions, FileViews.relativeFile ".index".toList x =
        ⟨.single, ["index".toList ++ '.' :: x]⟩ := by decide
    rw [hnil, List.nil_append, hroot x (by rwa [← FileViews.extensions_ofConfig config])]
    rfl
  · next hne =>
    obtain ⟨a, rest, rfl⟩ := List.exists_cons_of_ne_nil hne
    refine exists_congr fun x => and_congr_right fun _ => ?_
    rw [e.join_relativeFile hslash (by simpa using hdot)]

namespace Resolver

theorem isPlainNameChar_index {name : Text}
    (hname : ∀ x ∈ name, Written.isPlainNameChar x = true) :
    ∀ x ∈ name ++ ".index".toList, Written.isPlainNameChar x = true := by
  rw [List.forall_mem_append]
  exact ⟨hname, forall_mem_of_all (by decide)⟩

/-- What the tag stands for, by the files that the two views are looked up in. -/
theorem exists_outcome_anonymousPath (r : Resolver) (fs : FileSystem) (label name : Text)
    (hviews : r.views = (FileViews.ofConfig r.config).toViews fs) (hlabel : label ≠ [])
    (hcolon : ':' ∉ label) (hname : ∀ x ∈ name, Written.isPlainNameChar x = true)
    (hapart : r.config.TellsApart label) :
    let extensions := (FileViews.ofConfig r.config).extensions
    let view := Digest.ofText label ++ Name.hintMark ++ name
    let tag := label ++ Name.hintMark ++ name
    ∃ found foundIndex : Bool, (r.apply tag .anonymousPath).outcome =
        .ok (if found then some ⟨.view, view, tag⟩
          else if foundIndex then some ⟨.view, view ++ ".index".toList, tag⟩ else none) ∧
      (found = true ↔ ∃ e ∈ r.config.anonymousPaths, e.label = some label ∧
        ∃ x ∈ extensions, fs.isFile ((Path.ofText e.path).join
          (FileViews.relativeFile name x)) = true) ∧
      (foundIndex = true ↔ ∃ e ∈ r.config.anonymousPaths, e.label = some label ∧
        ∃ x ∈ extensions, fs.isFile ((Path.ofText e.path).join
          (FileViews.relativeFile (name ++ ".index".toList) x)) = true) := by
  intro extensions view tag
  obtain ⟨found, hview, hfound⟩ := FileViews.exists_toViews_hinted fs hlabel hapart hname
  obtain ⟨foundIndex, hindex, hfoundIndex⟩ :=
    FileViews.exists_toViews_hinted fs hlabel hapart (isPlainNameChar_index hname)
  refine ⟨found, foundIndex, ?_, hfound, hfoundIndex⟩
  refine outcome_apply_anonymousPath r label name rfl rfl hlabel hcolon
    (fun h => absurd (hname _ h) (by decide)) (by rw [hviews, hview])
    (by rw [hviews, ← hindex, List.append_assoc]) fun h => ?_
  rcases h with h | h
  · obtain ⟨e, he, hl, -⟩ := hfound.1 h
    exact ⟨e, he, hl⟩
  · obtain ⟨e, he, hl, -⟩ := hfoundIndex.1 h
    exact ⟨e, he, hl⟩

/-- **Anonymous paths.** The tag `label::name` stands for the view `digest::name`, or else
`digest::name.index`, if and only if one of the directories with the label has a file for `name` or
for `name.index` under it; the first view is preferred, whichever directory has the file. The one
exception is the empty name: its second view is a file at the root, and not under the directory. -/
theorem outcome_anonymousPath_iff (r : Resolver) (fs : FileSystem) (label name : Text)
    (hviews : r.views = (FileViews.ofConfig r.config).toViews fs) (hlabel : label ≠ [])
    (hcolon : ':' ∉ label) (hname : ∀ x ∈ name, Written.isPlainNameChar x = true)
    (hdot : name.head? ≠ some '.') (hapart : r.config.TellsApart label) :
    let extensions := (FileViews.ofConfig r.config).extensions
    let view := Digest.ofText label ++ Name.hintMark ++ name
    let tag := label ++ Name.hintMark ++ name
    let outcome := (r.apply tag .anonymousPath).outcome
    (outcome = .ok (some ⟨.view, view, tag⟩) ∨
        outcome = .ok (some ⟨.view, view ++ ".index".toList, tag⟩) ↔
      ∃ e ∈ r.config.anonymousPaths, e.label = some label ∧ (e.Holds fs extensions name ∨
        if name = [] then
          ∃ x ∈ extensions, fs.isFile ⟨.single, ["index".toList ++ '.' :: x]⟩ = true
        else e.Holds fs extensions (name ++ ".index".toList))) ∧
    ((∃ e ∈ r.config.anonymousPaths, e.label = some label ∧ e.Holds fs extensions name) →
      outcome = .ok (some ⟨.view, view, tag⟩)) := by
  intro extensions view tag outcome
  obtain ⟨found, foundIndex, hfirst, hfound, hfoundIndex⟩ :=
    exists_outcome_anonymousPath r fs label name hviews hlabel hcolon hname hapart
  have houtcome : outcome = .ok (if found then some ⟨.view, view, tag⟩
      else if foundIndex then some ⟨.view, view ++ ".index".toList, tag⟩ else none) := hfirst
  have hslash : '/' ∉ name := fun h => absurd (hname _ h) (by decide)
  have hslashIndex : '/' ∉ name ++ ".index".toList :=
    fun h => absurd (isPlainNameChar_index hname _ h) (by decide)
  simp only [AnonymousPath.join_relativeFile _ hslash hdot] at hfound
  simp only [AnonymousPath.exists_index_iff _ fs r.config hslashIndex hdot] at hfoundIndex
  constructor
  · have hiff : (outcome = .ok (some ⟨.view, view, tag⟩) ∨
        outcome = .ok (some ⟨.view, view ++ ".index".toList, tag⟩)) ↔
          found = true ∨ foundIndex = true := by
      rw [houtcome]
      cases found <;> cases foundIndex <;> simp
    rw [hiff, hfound, hfoundIndex, ← exists_or]
    simp only [← and_or_left]
    rfl
  · intro hholds
    rw [houtcome, if_pos (hfound.2 hholds)]

/-- Two directories with a label, and one with another label between them. -/
def labelled : Config where
  anonymousPaths := [⟨"kit".toList, some "ui".toList⟩, ⟨"admin".toList, some "admin".toList⟩,
    ⟨"/lib".toList, some "ui".toList⟩]

/-- Views in the three directories of `labelled`, and one file at the root. -/
def labelledFiles : FileSystem :=
  .ofList ⟨.single, ["project".toList]⟩
    [(Path.ofText "kit/forms/input/index.php".toList, []),
      (Path.ofText "/lib/forms/input.blade.php".toList, []),
      (Path.ofText "admin/card.php".toList, []), (Path.ofText "/index.php".toList, [])]

def labelledResolver : Resolver where
  config := labelled
  classes := ⟨fun _ => false, fun _ => []⟩
  views := (FileViews.ofConfig labelled).toViews labelledFiles

theorem tellsApart_labelled : labelled.TellsApart "ui".toList := by
  have hother : Digest.ofText "admin".toList ≠ Digest.ofText "ui".toList := by decide +kernel
  refine ⟨fun e he hd => ?_, by simp [labelled, Table.keys, Table.empty], by decide⟩
  simp only [labelled, List.mem_cons, List.not_mem_nil, or_false] at he
  rcases he with rfl | rfl | rfl
  · rfl
  · exact absurd hd hother
  · rfl

/-- The file in the second directory goes before the index in the first one. -/
theorem outcome_anonymousPath_input :
    labelled.TellsApart "ui".toList ∧
      (labelledResolver.apply "ui::forms.input".toList .anonymousPath).outcome =
        .ok (some ⟨.view, Digest.ofText "ui".toList ++ "::forms.input".toList,
          "ui::forms.input".toList⟩) := by
  have h := outcome_anonymousPath_iff labelledResolver labelledFiles "ui".toList
    "forms.input".toList rfl (by decide) (by decide) (forall_mem_of_all (by decide)) (by decide)
    tellsApart_labelled
  exact ⟨tellsApart_labelled, h.2 ⟨⟨"/lib".toList, some "ui".toList⟩, by decide, rfl,
    "blade.php".toList, by decide, by decide⟩⟩

/-- The tag `ui::` stands for a file at the root, and none of the directories has a file for it. -/
theorem outcome_anonymousPath_emptyName :
    (labelledResolver.apply "ui::".toList .anonymousPath).outcome =
        .ok (some ⟨.view, Digest.ofText "ui".toList ++ "::.index".toList, "ui::".toList⟩) ∧
      ¬ ∃ e ∈ labelled.anonymousPaths, e.label = some "ui".toList ∧
        (e.Holds labelledFiles (FileViews.ofConfig labelled).extensions [] ∨
          e.Holds labelledFiles (FileViews.ofConfig labelled).extensions ".index".toList) := by
  obtain ⟨found, hview, hfound⟩ := FileViews.exists_toViews_hinted labelledFiles (by decide)
    tellsApart_labelled (show ∀ x ∈ ([] : Text), Written.isPlainNameChar x = true by simp)
  obtain ⟨foundIndex, hindex, hfoundIndex⟩ := FileViews.exists_toViews_hinted labelledFiles
    (by decide) tellsApart_labelled (show ∀ x ∈ ".index".toList, Written.isPlainNameChar x = true
      from forall_mem_of_all (by decide))
  rw [FileViews.extensions_ofConfig] at hfound hfoundIndex ⊢
  obtain rfl : found = false := by
    rw [← Bool.not_eq_true, hfound]
    decide
  obtain rfl : foundIndex = true := hfoundIndex.2 (by decide)
  refine ⟨?_, by decide⟩
  exact outcome_apply_anonymousPath labelledResolver "ui".toList [] rfl rfl (by decide) (by decide)
    (by simp) hview (by rw [List.append_nil]; exact hindex)
    fun _ => ⟨⟨"kit".toList, some "ui".toList⟩, by decide, rfl⟩

end Resolver

end ComponentTags
