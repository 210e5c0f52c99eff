import ComponentTags.Compile.Template
import ComponentTags.Proofs.FramedTag
import ComponentTags.Proofs.Strictness

/-!
# Surrounding text is a frame

Text before and behind a template makes no difference to how the template is compiled, whatever is
left open in the template.

1. The pieces of the longer text are the characters before, the pieces of the template and the
   characters behind (`FramesHit.pieces_start`): nothing begins in `left`, which has no opening
   bracket, and what is found in the template is found there as before.
2. Characters are kept, and so a search in the longer text has the same effects and its result
   stands between the same texts (`FramesHit.expandM_pieces`).
3. A pass leaves a text with the same frame to the next pass, and so all passes do
   (`runPasses_framed`).
-/

namespace ComponentTags

open Text

variable {left right : Text}

/-! ## Pieces -/

namespace Piece

variable {α : Type}

/-- A piece with what is found in it exchanged. -/
def map {β : Type} (f : α → β) : Piece α → Piece β
  | plain c => plain c
  | found item => found (f item)

end Piece

namespace FramesHit

variable {α : Type} {move : α → α} {hit : Cursor → Option (α × Nat)}

theorem pieces_framed (h : FramesHit left right move hit) (hright : '>' ∉ right) (c : Cursor) :
    (c.framed left right).pieces hit =
      (c.pieces hit).map (Piece.map move) ++ right.map .plain := by
  induction c using Cursor.pieces_induction hit with
  | nil c hr =>
    have hrest : (c.framed left right).rest = right := by simp [hr]
    have hnone : ∀ d : Cursor, d.rest <:+ (c.framed left right).rest → hit d = none := by
      intro d hd
      rw [hrest] at hd
      cases hh : hit d with
      | none => rfl
      | some found => exact absurd (hd.subset (h.closable d found hh)) hright
    rw [Cursor.pieces_eq_map_plain hnone, Cursor.pieces_nil hr, hrest]
    rfl
  | plain c a rest hr hh ih =>
    have hnone : hit (c.framed left right) = none := by rw [h.framed, hh]; rfl
    have hnext : (c.framed left right).next = c.next.framed left right :=
      Cursor.advance_framed (n := 1) (by simp [hr])
    have hr' : (c.framed left right).rest = a :: (rest ++ right) := by simp [hr]
    rw [Cursor.pieces_plain hr' hnone, Cursor.pieces_plain hr hh, hnext, ih]
    rfl
  | found c item n hr hh ih =>
    have hsome : hit (c.framed left right) = some (move item, n) := by rw [h.framed, hh]; rfl
    have hle := h.le c item n hh
    have hlen := List.length_pos_iff.2 hr
    have hnext : (c.framed left right).next.advance (n - 1) =
        (c.next.advance (n - 1)).framed left right := by
      rw [show (c.framed left right).next = c.next.framed left right from
        Cursor.advance_framed (n := 1) hlen]
      refine Cursor.advance_framed ?_
      rw [Cursor.rest_next, List.length_drop]
      omega
    rw [Cursor.pieces_of_hit (by simp [hr]) hsome, Cursor.pieces_of_hit hr hh, hnext, ih]
    rfl

/-- **Pieces.** The text before and behind is made of its characters. -/
theorem pieces_start (h : FramesHit left right move hit) (hleft : '<' ∉ left)
    (hright : '>' ∉ right) (template : Text) :
    (Cursor.start (left ++ (template ++ right))).pieces hit =
      left.map .plain ++ (((Cursor.start template).pieces hit).map (Piece.map move) ++
        right.map .plain) := by
  have hmiss : (Cursor.start (left ++ (template ++ right))).Misses hit left := by
    refine Cursor.misses_of_suffix rfl fun s d hs hne hd _ => ?_
    cases hh : hit d with
    | none => rfl
    | some found =>
      obtain ⟨x, gap, rest, -, hr⟩ := h.opens d found hh
      obtain ⟨a, s, rfl⟩ := List.exists_cons_of_ne_nil hne
      obtain ⟨rfl, -⟩ := List.cons.inj (hd.symm.trans hr)
      exact absurd (hs.subset (by simp)) hleft
  rw [Cursor.pieces_append_of_misses rfl hmiss, Cursor.start_advance_eq_framed,
    h.pieces_framed hright]

end FramesHit

/-! ## Passes -/

namespace Piece

variable {α : Type} {m : Type → Type} [Monad m]

theorem expandM_map {f : α → m Text} {move : α → α} (hmove : ∀ item, f (move item) = f item)
    (ps : List (Piece α)) : expandM f (ps.map (Piece.map move)) = expandM f ps := by
  induction ps with
  | nil => rfl
  | cons p ps ih =>
    cases p with
    | plain a => rw [List.map_cons, Piece.map, expandM, expandM, ih]
    | found item => rw [List.map_cons, Piece.map, expandM, expandM, ih, hmove]

variable [LawfulMonad m]

theorem expandM_append_plain (f : α → m Text) (ps : List (Piece α)) (v : Text) :
    expandM f (ps ++ v.map .plain) = (· ++ v) <$> expandM f ps := by
  induction ps with
  | nil =>
    have h := expandM_plain_append f v []
    rw [List.append_nil] at h
    simp [h, expandM]
  | cons p ps ih =>
    cases p with
    | plain a => simp [expandM, ih]
    | found item => simp [expandM, ih]

theorem expand_eq_expandM (f : α → Text) (ps : List (Piece α)) :
    expand f ps = expandM (m := Id) f ps := by
  induction ps with
  | nil => rfl
  | cons p ps ih =>
    cases p with
    | plain a => rw [expand, ih]; rfl
    | found item => rw [expand, ih]; rfl

end Piece

/-- A text with more text before and behind. -/
def Text.framed (left right text : Text) : Text :=
  left ++ text ++ right

namespace FramesHit

variable {α : Type} {move : α → α} {hit : Cursor → Option (α × Nat)} {m : Type → Type} [Monad m]
  [LawfulMonad m]

/-- **One search.** What is found is exchanged for the same texts, with the same effects. -/
theorem expandM_pieces (h : FramesHit left right move hit) (hleft : '<' ∉ left)
    (hright : '>' ∉ right) {f : α → m Text} (hmove : ∀ item, f (move item) = f item)
    (template : Text) :
    Piece.expandM f ((Cursor.start (Text.framed left right template)).pieces hit) =
      Text.framed left right <$> Piece.expandM f ((Cursor.start template).pieces hit) := by
  have hframed : Text.framed left right = fun s => left ++ (s ++ right) :=
    funext fun s => List.append_assoc left s right
  rw [hframed, h.pieces_start hleft hright, Piece.expandM_plain_append,
    Piece.expandM_append_plain, Piece.expandM_map hmove, Functor.map_map]

theorem expand_pieces (h : FramesHit left right move hit) (hleft : '<' ∉ left)
    (hright : '>' ∉ right) {f : α → Text} (hmove : ∀ item, f (move item) = f item)
    (template : Text) :
    Piece.expand f ((Cursor.start (Text.framed left right template)).pieces hit) =
      Text.framed left right (Piece.expand f ((Cursor.start template).pieces hit)) := by
  rw [Piece.expand_eq_expandM, Piece.expand_eq_expandM]
  exact h.expandM_pieces (m := Id) hleft hright hmove template

end FramesHit

namespace Compiler

variable (t : Compiler) (hleft : '<' ∉ left)
  (hright : '>' ∉ right ∧ '"' ∉ right ∧ '\x27' ∉ right)

include hleft hright

theorem runPass_framed (template : Text) (p : Pass) :
    t.runPass (Text.framed left right template) p =
      Text.framed left right <$> t.runPass template p := by
  cases p with
  | live =>
    exact (Tag.Form.framesHit .live hright.1).expandM_pieces hleft hright.1 (fun _ => rfl) template
  | slots =>
    have hopen := (Tag.framesHit_slot hright).expandM_pieces hleft hright.1
      (f := t.slotDirective) (fun _ => rfl) template
    have hclose : ∀ s, closeSlots (Text.framed left right s) =
        Text.framed left right (closeSlots s) := fun s =>
      (Tag.framesHit_slotClosing? hright.1).expand_pieces hleft hright.1 (fun _ => rfl) s
    show closeSlots <$> _ = Text.framed left right <$> (closeSlots <$> _)
    rw [Tag.Grammar.pieces, hopen, Functor.map_map, Functor.map_map]
    simp only [hclose]
    rfl
  | selfClosing =>
    exact (Tag.Form.framesHit .selfClosing hright.1).expandM_pieces hleft hright.1
      (fun _ => rfl) template
  | opening =>
    exact (Tag.Form.framesHit .opening hright.1).expandM_pieces hleft hright.1
      (fun _ => rfl) template
  | closing =>
    exact congrArg pure
      ((Tag.framesHit_componentClosing? hright.1).expand_pieces hleft hright.1 (fun _ => rfl)
        template)

/-- **All passes.** Each pass leaves a text with the same frame to the next one. -/
theorem runPasses_framed (passes : List Pass) (template : Text) :
    t.runPasses passes (Text.framed left right template) =
      Text.framed left right <$> t.runPasses passes template := by
  induction passes generalizing template with
  | nil => exact (map_pure _ _).symm
  | cons p passes ih =>
    rw [runPasses, runPasses, t.runPass_framed hleft hright, bind_map_left, map_bind]
    exact congrArg _ (funext ih)

/-- **Surrounding text is a frame.** Text without `<` before a template and text without `>` and
without quotes behind it is kept as it is, whatever is in the template, and makes no difference to
how the template is compiled: the result stands between the two texts, a failure is the same
failure, and the record is the same. -/
theorem compile_framed (variants : List Variant) (template : Text) :
    (t.compile variants (left ++ template ++ right)).outcome =
        (t.compile variants template).outcome.map (fun s => left ++ s ++ right) ∧
      (t.compile variants (left ++ template ++ right)).events =
        (t.compile variants template).events := by
  have h := t.runPasses_framed hleft hright (variants.flatMap Variant.passes) template
  exact ⟨congrArg Traced.outcome h, (congrArg Traced.events h :)⟩

omit hleft hright

/-- A tag, and the beginning of another one. -/
def openBracket : Text :=
  "<x-a :b=\"$c\" /><x-a @class(".toList

/-- The text behind would close the bracket and go on with the tag that is left open. -/
theorem compile_framed_openBracket :
    ('<' ∉ "a > b ".toList ∧ '>' ∉ ") :c = $d /".toList ∧ '"' ∉ ") :c = $d /".toList ∧
      '\x27' ∉ ") :c = $d /".toList) ∧
    (everyClass.compile Variant.all
        ("a > b ".toList ++ openBracket ++ ") :c = $d /".toList)).outcome =
      (everyClass.compile Variant.all openBracket).outcome.map
        (fun s => "a > b ".toList ++ s ++ ") :c = $d /".toList) ∧
    (everyClass.compile Variant.all
        ("a > b ".toList ++ openBracket ++ ") :c = $d /".toList)).events =
      (everyClass.compile Variant.all openBracket).events :=
  ⟨by decide, everyClass.compile_framed (by decide) (by decide) Variant.all openBracket⟩

end Compiler

end ComponentTags
