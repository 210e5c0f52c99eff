import ComponentTags.Proofs.Replacing
import Mathlib.Data.List.Infix

/-!
# What stands in a text after replacing

An occurrence in the result begins at a character that was kept or in something that was put in.
If no end of it can begin what is put in (`KeepsOut`), then in the first case it stood in the text
before (`prefix_of_prefix_expand`, `infix_expand`). And if nothing that is put in has more
characters of a class than what was taken away, the result has no more of them than the text
(`countP_expand_le`).
-/

namespace ComponentTags.Cursor

open Text Piece

variable {α : Type} {hit : Cursor → Option (α × Nat)} {f : α → Text} {c : Cursor} {t u v : Text}
  {x : Char} {p : Char → Bool}

/-! ## Places of a text -/

theorem misses_start_iff :
    (start t).Misses hit t ↔ ∀ d : Cursor, d.text = t → d.rest ≠ [] → hit d = none := by
  constructor
  · intro h d hd hne
    have hpos : 0 < d.rest.length := List.length_pos_iff.2 hne
    have hlen := d.pos_add_length
    rw [hd] at hlen
    have hle : d.pos ≤ (start t).rest.length := by
      show d.pos ≤ t.length
      omega
    have heq : d = (start t).advance d.pos := by
      refine ext_of_text (by simp [hd]) ?_
      rw [pos_advance hle, pos_start, Nat.zero_add]
    rw [heq]
    exact h _ (by omega)
  · intro h k hk
    refine h _ (by simp) ?_
    rw [rest_advance]
    exact mt List.drop_eq_nil_iff.1 (by show ¬ t.length ≤ k; omega)

theorem exists_text_eq (h : u <:+: t) : ∃ d : Cursor, d.text = t ∧ u <+: d.rest := by
  obtain ⟨p, v, rfl⟩ := h
  exact ⟨⟨p.reverse, u ++ v, p.reverse.length, rfl⟩, by simp [text], List.prefix_append u v⟩

theorem rest_suffix_text (d : Cursor) : d.rest <:+ d.text :=
  List.suffix_append _ _

theorem expand_of_misses (f : α → Text) (h : c.Misses hit c.rest) :
    Piece.expand f (c.pieces hit) = c.rest := by
  have hr : c.rest = c.rest ++ [] := (List.append_nil _).symm
  rw [expand_pieces_of_misses f hr h, pieces_nil (rest_advance_append hr), Piece.expand,
    List.append_nil]

/-! ## Occurrences -/

/-- An occurrence begins in the first of two stretches or stands in the second. -/
theorem exists_suffix_or_infix {w : Text} (h : w <:+: u ++ v) :
    (∃ s, s <:+ u ∧ s ≠ [] ∧ w <+: s ++ v) ∨ w <:+: v := by
  induction u with
  | nil => exact Or.inr h
  | cons a u ih =>
    rcases List.infix_cons_iff.1 h with h | h
    · exact Or.inl ⟨a :: u, List.suffix_rfl, by simp, h⟩
    · rcases ih h with ⟨s, hs, h⟩ | h
      · exact Or.inl ⟨s, hs.trans (List.suffix_cons a u), h⟩
      · exact Or.inr h

/-- No end of `u` begins what is put in for a match. -/
def KeepsOut (hit : Cursor → Option (α × Nat)) (f : α → Text) (u : Text) : Prop :=
  ∀ d item n, hit d = some (item, n) → ∀ s v, s <:+ u → s ≠ [] → ¬ s <+: f item ++ v

theorem keepsOut_of_head
    (h : ∀ d item n, hit d = some (item, n) → ∃ a w, f item = a :: w ∧ a ∉ u) :
    KeepsOut hit f u := by
  intro d item n hd s v hs hne hp
  obtain ⟨a, w, hf, ha⟩ := h d item n hd
  obtain ⟨b, s, rfl⟩ := List.exists_cons_of_ne_nil hne
  rw [hf] at hp
  obtain ⟨rfl, -⟩ := List.cons_prefix_cons.1 hp
  exact ha (hs.subset (by simp))

/-- What the result begins with, the text begins with, and nothing is found there. -/
theorem prefix_of_prefix_expand (hout : KeepsOut hit f u)
    (h : u <+: Piece.expand f (c.pieces hit)) : u <+: c.rest ∧ (u ≠ [] → hit c = none) := by
  induction u generalizing c with
  | nil => exact ⟨List.nil_prefix, fun h => absurd rfl h⟩
  | cons a u ih =>
    cases hr : c.rest with
    | nil =>
      rw [pieces_nil hr] at h
      exact absurd (List.prefix_nil.1 h) (by simp)
    | cons b rest =>
      cases hh : hit c with
      | some found =>
        have hne : c.rest ≠ [] := by simp [hr]
        rw [pieces_of_hit hne hh] at h
        exact absurd h (hout c _ _ hh _ _ List.suffix_rfl (by simp))
      | none =>
        rw [pieces_plain hr hh, Piece.expand] at h
        obtain ⟨rfl, hu⟩ := List.cons_prefix_cons.1 h
        replace hu := (ih (fun d item n hd s v hs => hout d item n hd s v
          (hs.trans (List.suffix_cons a u))) hu).1
        rw [rest_next, hr] at hu
        exact ⟨List.cons_prefix_cons.2 ⟨rfl, hu⟩, fun _ => rfl⟩

/-- What stands in the result stood in the text at a place where nothing is found, or begins in
something that was put in. -/
theorem infix_expand (hout : KeepsOut hit f u)
    (h : x :: u <:+: Piece.expand f (c.pieces hit)) :
    (∃ d : Cursor, d.rest <:+ c.rest ∧ hit d = none ∧ x :: u <+: d.rest) ∨
      ∃ (d : Cursor) (item : α) (n : Nat) (s v : Text), d.rest <:+ c.rest ∧
        hit d = some (item, n) ∧ s <:+ f item ∧ s ≠ [] ∧ x :: u <+: s ++ v := by
  induction c using pieces_induction hit with
  | nil c hr =>
    rw [pieces_nil hr] at h
    exact absurd (List.infix_nil.1 h) (by simp)
  | plain c a rest hr hh ih =>
    rw [pieces_plain hr hh, Piece.expand] at h
    rcases List.infix_cons_iff.1 h with h | h
    · obtain ⟨rfl, hu⟩ := List.cons_prefix_cons.1 h
      replace hu := (prefix_of_prefix_expand hout hu).1
      rw [rest_next, hr] at hu
      exact Or.inl ⟨c, List.suffix_rfl, hh, hr ▸ List.cons_prefix_cons.2 ⟨rfl, hu⟩⟩
    · have hs : c.next.rest <:+ c.rest := suffix_rest_next_advance c 0
      rcases ih h with ⟨d, hd, h⟩ | ⟨d, item, n, s, v, hd, h⟩
      · exact Or.inl ⟨d, hd.trans hs, h⟩
      · exact Or.inr ⟨d, item, n, s, v, hd.trans hs, h⟩
  | found c item n hr hh ih =>
    rw [pieces_of_hit hr hh, Piece.expand] at h
    have hs := suffix_rest_next_advance c (n - 1)
    rcases exists_suffix_or_infix h with ⟨s, hs', hne, h⟩ | h
    · exact Or.inr ⟨c, item, n, s, _, List.suffix_rfl, hh, hs', hne, h⟩
    · rcases ih h with ⟨d, hd, h⟩ | ⟨d, item, n, s, v, hd, h⟩
      · exact Or.inl ⟨d, hd.trans hs, h⟩
      · exact Or.inr ⟨d, item, n, s, v, hd.trans hs, h⟩

/-! ## Stretches and counts -/

/-- What is found is a text of the kind `P`. -/
def Finds (hit : Cursor → Option (α × Nat)) (P : α → Text → Prop) : Prop :=
  ∀ d item n, hit d = some (item, n) →
    ∃ u v, d.rest = u ++ v ∧ u.length = n ∧ u ≠ [] ∧ P item u

theorem Finds.imp {P Q : α → Text → Prop} (h : Finds hit P)
    (himp : ∀ item u, P item u → Q item u) : Finds hit Q := by
  intro d item n hd
  obtain ⟨u, v, hr, hlen, hu, hP⟩ := h d item n hd
  exact ⟨u, v, hr, hlen, hu, himp item u hP⟩

theorem rest_next_advance (hr : c.rest = u ++ v) (hu : u ≠ []) :
    (c.next.advance (u.length - 1)).rest = v := by
  have hlen : 0 < u.length := List.length_pos_iff.2 hu
  rw [rest_advance, rest_next, List.drop_drop, hr, Nat.add_sub_cancel' hlen, List.drop_left]

/-- If neither what is found nor what is put in holds a character, the text is replaced on the two
sides of it. -/
theorem exists_expand_cut (hf : Finds hit fun item u => x ∉ u ∧ x ∉ f item ∧ f item ≠ [])
    (hr : c.rest = u ++ x :: v) (hu : x ∉ u) :
    ∃ (u' : Text) (d : Cursor), x ∉ u' ∧ (u' = [] ↔ u = []) ∧ d.rest = v ∧
      Piece.expand f (c.pieces hit) = u' ++ x :: Piece.expand f (d.pieces hit) := by
  induction c using pieces_induction hit generalizing u with
  | nil c h => simp [h] at hr
  | plain c a rest h hh ih =>
    have hn : c.next.rest = rest := by simp [rest_next, h]
    rw [pieces_plain h hh, Piece.expand]
    rw [h] at hr
    cases u with
    | nil =>
      obtain ⟨rfl, rfl⟩ := List.cons.inj hr
      exact ⟨[], c.next, by simp, by simp, hn, rfl⟩
    | cons b u =>
      obtain ⟨rfl, hrest⟩ := List.cons.inj hr
      simp only [List.mem_cons, not_or] at hu
      obtain ⟨u', d, hu', -, hd, he⟩ := ih (hn.trans hrest) hu.2
      exact ⟨a :: u', d, by simp [hu.1, hu'], by simp, hd, by rw [he]; rfl⟩
  | found c item n h hh ih =>
    obtain ⟨w, rest, hw, rfl, hne, hx, hx', hf'⟩ := hf c item n hh
    -- The match ends before the character.
    have hwu : w <+: u ++ x :: v := ⟨rest, by rw [← hw, hr]⟩
    obtain ⟨u, rfl⟩ := prefix_of_prefix_append_cons hx hwu
    rw [List.append_assoc] at hr
    have hrest : rest = u ++ x :: v := List.append_cancel_left (hw.symm.trans hr)
    obtain ⟨u', d, hu', -, hd, he⟩ := ih (by rw [rest_next_advance hw hne, hrest])
      (fun hm => hu (List.mem_append_right w hm))
    refine ⟨f item ++ u', d, by simp [hx', hu'], by simp [hf', hne], hd, ?_⟩
    rw [pieces_of_hit h hh, Piece.expand, he, List.append_assoc]

/-- Replacing brings no more characters of a class, if no replacement does. -/
theorem countP_expand_le (hf : Finds hit fun item u => (f item).countP p ≤ u.countP p)
    (c : Cursor) : (Piece.expand f (c.pieces hit)).countP p ≤ c.rest.countP p := by
  induction c using pieces_induction hit with
  | nil c hr => rw [pieces_nil hr, hr, Piece.expand]
  | plain c a rest hr hh ih =>
    rw [rest_next, hr] at ih
    rw [pieces_plain hr hh, Piece.expand, hr, List.countP_cons, List.countP_cons]
    exact Nat.add_le_add_right ih _
  | found c item n hr hh ih =>
    obtain ⟨u, v, hd, rfl, hu, hle⟩ := hf c item n hh
    rw [rest_next_advance hd hu] at ih
    rw [pieces_of_hit hr hh, Piece.expand, hd, List.countP_append, List.countP_append]
    exact Nat.add_le_add hle ih

/-- And it brings fewer, if every replacement does and one is made. -/
theorem countP_expand_lt (hf : Finds hit fun item u => (f item).countP p < u.countP p)
    (hm : ¬ c.Misses hit c.rest) :
    (Piece.expand f (c.pieces hit)).countP p < c.rest.countP p := by
  obtain ⟨w, a, rest, item, n, hr, hmiss, hh⟩ := exists_first_hit hm
  obtain ⟨u, v, hd, rfl, hu, hlt⟩ := hf _ item n hh
  have hle := countP_expand_le (hf.imp fun _ _ => Nat.le_of_lt)
    ((c.advance w.length).next.advance (u.length - 1))
  rw [rest_next_advance hd hu] at hle
  have hrest : c.rest = w ++ (u ++ v) := by
    rw [← hd, rest_advance_append hr, hr]
  rw [expand_pieces_first_hit f hr hmiss hh, hrest]
  simp only [List.countP_append]
  omega

end ComponentTags.Cursor
