import ComponentTags.Directive
import ComponentTags.Proofs.Replacing

/-!
# The marks in a compiled template

The directives of a compiled template begin and end components and slots. `marksIn` reads these
marks off a text from left to right, and `WellNested` says that every end is the end of what was
begun last. A text is read stretch by stretch (`Reads.append`): a mark gives itself, and a stretch
gives nothing if no mark begins in it or if none is in it and none can go on behind it
(`reads_of_avoids`).
-/

namespace ComponentTags

open Text

/-- A directive that begins or ends something. -/
inductive Mark where
  | componentBegin
  | componentEnd
  | slotBegin
  | slotEnd
  deriving DecidableEq

/-- Every end is the end of what was begun last, and nothing stays open. -/
inductive WellNested : List Mark → Prop
  | nil : WellNested []
  | component {body rest : List Mark} (hbody : WellNested body) (hrest : WellNested rest) :
      WellNested (.componentBegin :: body ++ .componentEnd :: rest)
  | slot {body rest : List Mark} (hbody : WellNested body) (hrest : WellNested rest) :
      WellNested (.slotBegin :: body ++ .slotEnd :: rest)

/-- Components are begun as often as they are ended. -/
theorem WellNested.count_eq {l : List Mark} (h : WellNested l) :
    l.count .componentBegin = l.count .componentEnd := by
  induction h with
  | nil => rfl
  | component hbody hrest ihbody ihrest => simp [ihbody, ihrest]; omega
  | slot hbody hrest ihbody ihrest => simp [ihbody, ihrest]

namespace Mark

/-- The text by which a mark is known. -/
def text : Mark → Text
  | componentBegin => "<?php ".toList
  | componentEnd => Directive.componentEnd
  | slotBegin => "@slot(".toList
  | slotEnd => "@endslot".toList

def all : List Mark :=
  [componentBegin, componentEnd, slotBegin, slotEnd]

def at? (c : Cursor) : Option (Mark × Nat) :=
  (all.find? fun m => m.text.isPrefixOf c.rest).map fun m => (m, m.text.length)

end Mark

/-- The marks in a text from left to right. -/
def marksIn (text : Text) : List Mark :=
  Piece.items ((Cursor.start text).pieces Mark.at?)

namespace Mark

variable {c : Cursor} {m : Mark} {u v w : Text} {l l' : List Mark}

theorem mem_all (m : Mark) : m ∈ all := by
  cases m <;> decide

theorem eq_of_begins {m' : Mark} (h : m.text <+: m'.text) : m = m' := by
  cases m <;> cases m' <;> first | rfl | exact absurd h (by decide)

theorem at?_eq_some (hr : c.rest = m.text ++ v) : at? c = some (m, m.text.length) := by
  have hm : m.text <+: c.rest := hr ▸ List.prefix_append _ _
  unfold at?
  cases hfind : all.find? fun m => m.text.isPrefixOf c.rest with
  | none =>
    have hno := List.find?_eq_none.1 hfind m m.mem_all
    exact absurd (List.isPrefixOf_iff_prefix.2 hm) hno
  | some m' =>
    have hfound := List.find?_some hfind
    have hm' : m'.text <+: c.rest := List.isPrefixOf_iff_prefix.1 hfound
    have heq : m' = m := by
      rcases List.prefix_or_prefix_of_prefix hm' hm with h | h
      · exact eq_of_begins h
      · exact (eq_of_begins h).symm
    rw [heq]
    rfl

theorem exists_prefix_of_at? {found : Mark × Nat} (h : at? c = some found) :
    ∃ m : Mark, m.text <+: c.rest := by
  obtain ⟨m, hfind, -⟩ := Option.map_eq_some_iff.1 h
  have hfound := List.find?_some hfind
  exact ⟨m, List.isPrefixOf_iff_prefix.1 hfound⟩

/-- Before `v`, the mark is not found in `u`: it does not begin there, or it is neither in `u` nor
goes on at the front of `v`. -/
def Avoids (m : Mark) (u v : Text) : Prop :=
  (∀ x ∈ m.text.head?, x ∉ u) ∨ (¬ m.text <:+: u ∧ ∀ x ∈ v.head?, x ∉ m.text)

/-- The marks that a text gives before `v`. -/
def Reads (u v : Text) (l : List Mark) : Prop :=
  ∀ c : Cursor, c.rest = u ++ v →
    Piece.items (c.pieces at?) = l ++ Piece.items ((c.advance u.length).pieces at?)

theorem Reads.append (hu : Reads u (w ++ v) l) (hw : Reads w v l') :
    Reads (u ++ w) v (l ++ l') := by
  intro c hr
  rw [List.append_assoc] at hr
  rw [hu c hr, hw _ (Cursor.rest_advance_append hr), Cursor.advance_advance, List.length_append,
    List.append_assoc]

theorem text_ne_nil (m : Mark) : m.text ≠ [] := by
  cases m <;> decide

theorem reads_text (m : Mark) (v : Text) : Reads m.text v [m] := by
  intro c hr
  rw [Cursor.pieces_append_of_hit hr m.text_ne_nil (at?_eq_some hr)]
  rfl

theorem reads_of_avoids (h : ∀ m : Mark, m.Avoids u v) : Reads u v [] := by
  intro c hr
  have hmiss : c.Misses at? u := by
    refine Cursor.misses_of_suffix hr fun s d hs hne hd _ => ?_
    cases hat : at? d with
    | none => rfl
    | some found =>
      obtain ⟨m, hm⟩ := exists_prefix_of_at? hat
      rw [hd] at hm
      rcases h m with hbegin | ⟨hno, hgo⟩
      · -- the mark begins with the first character of `s`
        obtain ⟨a, s', rfl⟩ := List.exists_cons_of_ne_nil hne
        obtain ⟨b, t, ht⟩ : ∃ b t, m.text = b :: t := by cases m <;> exact ⟨_, _, rfl⟩
        rw [ht, List.cons_append, List.cons_prefix_cons] at hm
        refine absurd (hs.subset ?_) (hbegin b (by simp [ht]))
        simp [hm.1]
      · have hs' : m.text <+: s := by
          cases v with
          | nil => rwa [List.append_nil] at hm
          | cons a v => exact prefix_of_prefix_append_cons (hgo a (by simp)) hm
        exact absurd (hs'.isInfix.trans hs.isInfix) hno
  rw [Cursor.pieces_append_of_misses hr hmiss, Piece.items_plain_append, List.nil_append]

def Absent (t : Text) : Prop :=
  ∀ m : Mark, ¬ m.text <:+: t

theorem absent_of_not_mem (hb : '<' ∉ u) (ha : '@' ∉ u) : Absent u := by
  intro m hm
  cases m with
  | componentBegin => exact hb (hm.subset (by decide))
  | _ => exact ha (hm.subset (by decide))

/-- A text without tags and marks gives nothing before a directive. -/
theorem Absent.reads (h : Absent u) (hu : '<' ∉ u) (hv : ∀ x ∈ v.head?, x = ' ' ∨ x = '<') :
    Reads u v [] := by
  refine reads_of_avoids fun m => ?_
  cases m with
  | componentBegin => exact Or.inl fun x hx => (Option.some.inj hx : '<' = x) ▸ hu
  | _ => exact Or.inr ⟨h _, fun x hx => by rcases hv x hx with rfl | rfl <;> decide⟩

theorem reads_of_not_mem (hb : '<' ∉ u) (ha : '@' ∉ u) (v : Text) : Reads u v [] := by
  refine reads_of_avoids fun m => Or.inl ?_
  cases m with
  | componentBegin => exact fun x hx => (Option.some.inj hx : '<' = x) ▸ hb
  | _ => exact fun x hx => (Option.some.inj hx : '@' = x) ▸ ha

theorem Reads.marksIn_eq (h : Reads u [] l) : marksIn u = l := by
  have hr : (Cursor.start u).rest = u ++ [] := (List.append_nil u).symm
  rw [marksIn, h _ hr, Cursor.pieces_nil (Cursor.rest_advance_append hr)]
  exact List.append_nil l

end Mark

end ComponentTags
