import ComponentTags.CodeBlock
import ComponentTags.Proofs.Reading
import ComponentTags.Trace

/-!
# Searching and replacing stretch by stretch

A search over `u ++ v` leaves `u` alone if it finds nothing at any place in it (`Misses`), and
goes on at `v`; if it finds `u` itself, it goes on at `v` too. So a text that is made of stretches
of these two kinds is replaced stretch by stretch.
-/

namespace ComponentTags

variable {α : Type} {hit : Cursor → Option (α × Nat)} {c : Cursor} {item : α} {u v : Text}

namespace Cursor

/-- Nothing is found at any place in the next `u`. -/
def Misses (hit : Cursor → Option (α × Nat)) (c : Cursor) (u : Text) : Prop :=
  ∀ k < u.length, hit (c.advance k) = none

/-- To miss a stretch is to miss every end of it. -/
theorem misses_of_suffix (hr : c.rest = u ++ v)
    (h : ∀ (s : Text) (d : Cursor), s <:+ u → s ≠ [] → d.rest = s ++ v →
      d.pos + s.length = c.pos + u.length → hit d = none) : Misses hit c u := by
  intro k hk
  have hs : c.rest = u.take k ++ (u.drop k ++ v) := by
    rw [hr, ← List.append_assoc, List.take_append_drop]
  have hl : (u.take k).length = k := by
    rw [List.length_take]
    omega
  refine h (u.drop k) (c.advance k) (List.drop_suffix k u) ?_ ?_ ?_
  · intro h₀
    have := congrArg List.length h₀
    simp at this
    omega
  · have := rest_advance_append hs
    rwa [hl] at this
  · have := pos_advance_append hs
    rw [hl] at this
    rw [this, List.length_drop]
    omega

theorem Misses.append (hu : c.Misses hit u) (hv : (c.advance u.length).Misses hit v) :
    c.Misses hit (u ++ v) := by
  intro k hk
  rw [List.length_append] at hk
  by_cases h : k < u.length
  · exact hu k h
  · have hsum : u.length + (k - u.length) = k := by omega
    have hmiss := hv (k - u.length) (by omega)
    rwa [advance_advance, hsum] at hmiss

theorem pieces_append_of_misses (hr : c.rest = u ++ v) (h : Misses hit c u) :
    c.pieces hit = u.map .plain ++ (c.advance u.length).pieces hit := by
  induction u generalizing c with
  | nil => rfl
  | cons a u ih =>
    have h₀ : hit c = none := h 0 (by simp)
    have hn : c.next.rest = u ++ v := by simp [rest_next, hr]
    have h' : Misses hit c.next u := fun k hk => h (k + 1) (by simpa using hk)
    rw [pieces_plain hr h₀, ih hn h']
    rfl

theorem pieces_append_of_hit (hr : c.rest = u ++ v) (hu : u ≠ [])
    (h : hit c = some (item, u.length)) :
    c.pieces hit = .found item :: (c.advance u.length).pieces hit := by
  rcases u with _ | ⟨a, u⟩
  · exact absurd rfl hu
  · refine pieces_found ?_ h
    simp [hr]

/-- The search goes on behind what it finds, and at least one character further. -/
theorem pieces_of_hit {n : Nat} (hr : c.rest ≠ []) (h : hit c = some (item, n)) :
    c.pieces hit = .found item :: (c.next.advance (n - 1)).pieces hit := by
  obtain ⟨before, rest, pos, hp⟩ := c
  cases rest with
  | nil => exact absurd rfl hr
  | cons a rest =>
    rw [pieces, piecesAfter]
    simp only [h]
    rw [piecesAfter_skip hit ⟨a :: before, rest, pos + 1, by simp [hp]⟩ (n - 1)]
    rfl

/-- Induction along a search. -/
theorem pieces_induction {motive : Cursor → Prop} (hit : Cursor → Option (α × Nat))
    (nil : ∀ c, c.rest = [] → motive c)
    (plain : ∀ c a rest, c.rest = a :: rest → hit c = none → motive c.next → motive c)
    (found : ∀ c item n, c.rest ≠ [] → hit c = some (item, n) →
      motive (c.next.advance (n - 1)) → motive c) (c : Cursor) : motive c := by
  obtain ⟨k, hk⟩ : ∃ k, c.rest.length = k := ⟨_, rfl⟩
  induction k using Nat.strongRecOn generalizing c with
  | ind k ih =>
    cases hr : c.rest with
    | nil => exact nil c hr
    | cons a rest =>
      have hlt : ∀ n, (c.next.advance n).rest.length < k := by
        intro n
        rw [rest_advance, rest_next, hr, List.length_drop, List.length_drop, ← hk, hr]
        simp only [List.length_cons]
        omega
      cases hh : hit c with
      | none => exact plain c a rest hr hh (ih _ (hlt 0) c.next rfl)
      | some found? =>
        obtain ⟨item, n⟩ := found?
        exact found c item n (by simp [hr]) hh (ih _ (hlt (n - 1)) _ rfl)

theorem suffix_rest_next_advance (c : Cursor) (n : Nat) : (c.next.advance n).rest <:+ c.rest := by
  rw [rest_advance, rest_next, List.drop_drop]
  exact List.drop_suffix _ _

end Cursor

namespace Piece

theorem expand_plain_append (f : α → Text) (u : Text) (ps : List (Piece α)) :
    expand f (u.map .plain ++ ps) = u ++ expand f ps := by
  induction u with
  | nil => rfl
  | cons a u ih => simp [expand, ih]

theorem items_plain_append (u : Text) (ps : List (Piece α)) :
    items (u.map .plain ++ ps) = items ps := by
  induction u with
  | nil => rfl
  | cons a u ih => simp [items, ih]

theorem expandM_plain_append {m : Type → Type} [Monad m] [LawfulMonad m] (f : α → m Text)
    (u : Text) (ps : List (Piece α)) :
    expandM f (u.map .plain ++ ps) = (u ++ ·) <$> expandM f ps := by
  induction u with
  | nil => simp
  | cons a u ih => simp [expandM, ih]

theorem outcome_expandM_plain_append (f : α → Traced Text) (u : Text) (ps : List (Piece α)) :
    (expandM f (u.map .plain ++ ps)).outcome = (expandM f ps).outcome.map (u ++ ·) :=
  congrArg Traced.outcome (expandM_plain_append f u ps)

theorem outcome_expandM_found {f : α → Traced Text} {new : Text} {ps : List (Piece α)}
    (h : (f item).outcome = .ok new) :
    (expandM f (.found item :: ps)).outcome = (expandM f ps).outcome.map (new ++ ·) := by
  rw [expandM, Traced.outcome_bind, h]
  rfl

theorem outcome_expandM_pure (f : α → Text) (ps : List (Piece α)) :
    (expandM (fun item => (pure (f item) : Traced Text)) ps).outcome = .ok (expand f ps) := by
  induction ps with
  | nil => rfl
  | cons p ps ih =>
    cases p with
    | plain a =>
      rw [expandM, Traced.outcome_map, ih]
      rfl
    | found item =>
      rw [outcome_expandM_found rfl, ih]
      rfl

end Piece

namespace Cursor

/-! ## Replacing -/

theorem expand_pieces_of_misses (f : α → Text) (hr : c.rest = u ++ v) (h : Misses hit c u) :
    Piece.expand f (c.pieces hit) = u ++ Piece.expand f ((c.advance u.length).pieces hit) := by
  rw [pieces_append_of_misses hr h, Piece.expand_plain_append]

theorem expand_pieces_of_hit (f : α → Text) (hr : c.rest = u ++ v) (hu : u ≠ [])
    (h : hit c = some (item, u.length)) :
    Piece.expand f (c.pieces hit) =
      f item ++ Piece.expand f ((c.advance u.length).pieces hit) := by
  rw [pieces_append_of_hit hr hu h, Piece.expand]

theorem pieces_eq_map_plain (h : ∀ d : Cursor, d.rest <:+ c.rest → hit d = none) :
    c.pieces hit = c.rest.map .plain := by
  have hr : c.rest = c.rest ++ [] := by simp
  have hm : Misses hit c c.rest := by
    refine misses_of_suffix hr fun s d hs _ hd _ => h d ?_
    rwa [hd, List.append_nil]
  rw [pieces_append_of_misses hr hm, pieces_nil (rest_advance_append hr), List.append_nil]

theorem expand_pieces_of_none (f : α → Text)
    (h : ∀ d : Cursor, d.rest <:+ c.rest → hit d = none) :
    Piece.expand f (c.pieces hit) = c.rest := by
  have := Piece.expand_plain_append f c.rest []
  rw [List.append_nil] at this
  rw [pieces_eq_map_plain h, this, Piece.expand, List.append_nil]

/-- A text of stretches is replaced stretch by stretch, if each of them is, whatever follows. -/
theorem expand_pieces_flatMap {β : Type} {f : α → Text} {Follows : Text → Prop}
    {text new : β → Text} {l : List β}
    (hl : ∀ b ∈ l, ∀ (c : Cursor) (v : Text), Follows v → c.rest = text b ++ v →
      Piece.expand f (c.pieces hit) =
        new b ++ Piece.expand f ((c.advance (text b).length).pieces hit))
    (hf : ∀ l' : List β, l' <:+ l → Follows (l'.flatMap text)) (hr : c.rest = l.flatMap text) :
    Piece.expand f (c.pieces hit) = l.flatMap new := by
  induction l generalizing c with
  | nil => rw [pieces_nil hr]; rfl
  | cons b l ih =>
    rw [hl b (by simp) c (l.flatMap text) (hf l (List.suffix_cons b l)) hr,
      ih (fun b' hb' => hl b' (by simp [hb']))
        (fun l' hl' => hf l' (hl'.trans (List.suffix_cons b l))) (rest_advance_append hr)]
    rfl

/-- A text of stretches that are missed or found is replaced stretch by stretch. -/
theorem outcome_expandM_flatMap {β : Type} {f : α → Traced Text} {text new : β → Text}
    {l : List β}
    (hl : ∀ b ∈ l, ∀ (c : Cursor) (v : Text), c.rest = text b ++ v →
      (Misses hit c (text b) ∧ new b = text b) ∨
        ∃ item, text b ≠ [] ∧ hit c = some (item, (text b).length) ∧
          (f item).outcome = .ok (new b)) (hr : c.rest = l.flatMap text) :
    (Piece.expandM f (c.pieces hit)).outcome = .ok (l.flatMap new) := by
  induction l generalizing c with
  | nil => rw [pieces_nil hr]; rfl
  | cons b l ih =>
    have hrest := ih (fun b' hb' => hl b' (by simp [hb'])) (rest_advance_append hr)
    rcases hl b (by simp) c (l.flatMap text) hr with ⟨hm, hn⟩ | ⟨item, hne, hh, hf⟩
    · rw [pieces_append_of_misses hr hm, Piece.outcome_expandM_plain_append, hrest,
        List.flatMap_cons, hn]
      rfl
    · rw [pieces_append_of_hit hr hne hh, Piece.outcome_expandM_found hf, hrest]
      rfl

/-- What stands in the result stood there before or is part of what was put in. -/
theorem mem_expand {x : Char} {f : α → Text} {c : Cursor}
    (h : x ∈ Piece.expand f (c.pieces hit)) :
    x ∈ c.rest ∨
      ∃ d item n, d.rest <:+ c.rest ∧ hit d = some (item, n) ∧ x ∈ f item := by
  induction c using pieces_induction hit with
  | nil c hr =>
    rw [pieces_nil hr] at h
    simp [Piece.expand] at h
  | plain c a rest hr hh ih =>
    rw [pieces_plain hr hh, Piece.expand, List.mem_cons] at h
    rcases h with rfl | h
    · simp [hr]
    · have hs : c.next.rest <:+ c.rest := suffix_rest_next_advance c 0
      rcases ih h with h | ⟨d, item, n, hd, hi, hx⟩
      · exact Or.inl (hs.subset h)
      · exact Or.inr ⟨d, item, n, hd.trans hs, hi, hx⟩
  | found c item n hr hh ih =>
    rw [pieces_of_hit hr hh, Piece.expand, List.mem_append] at h
    rcases h with h | h
    · exact Or.inr ⟨c, item, n, List.suffix_rfl, hh, h⟩
    · have hs := suffix_rest_next_advance c (n - 1)
      rcases ih h with h | ⟨d, item, n, hd, hi, hx⟩
      · exact Or.inl (hs.subset h)
      · exact Or.inr ⟨d, item, n, hd.trans hs, hi, hx⟩

/-- If every replacement has a character of a class, a result without one was not changed. -/
theorem expand_eq_rest {p : Char → Bool} {f : α → Text} {c : Cursor}
    (hf : ∀ d item n, hit d = some (item, n) → ∃ x ∈ f item, p x = true)
    (h : ∀ x ∈ Piece.expand f (c.pieces hit), p x = false) :
    Piece.expand f (c.pieces hit) = c.rest := by
  induction c using pieces_induction hit with
  | nil c hr => rw [pieces_nil hr, hr, Piece.expand]
  | plain c a rest hr hh ih =>
    rw [pieces_plain hr hh, Piece.expand] at h ⊢
    rw [ih fun x hx => h x (List.mem_cons_of_mem a hx), rest_next, hr]
    rfl
  | found c item n hr hh _ =>
    rw [pieces_of_hit hr hh, Piece.expand] at h
    obtain ⟨x, hx, hp⟩ := hf c item n hh
    rw [h x (List.mem_append_left _ hx)] at hp
    simp at hp

theorem exists_hit_of_mem_items {c : Cursor} (h : item ∈ Piece.items (c.pieces hit)) :
    ∃ d n, d.rest <:+ c.rest ∧ hit d = some (item, n) := by
  induction c using pieces_induction hit with
  | nil c hr =>
    rw [pieces_nil hr] at h
    simp [Piece.items] at h
  | plain c a rest hr hh ih =>
    rw [pieces_plain hr hh, Piece.items] at h
    obtain ⟨d, n, hd, hi⟩ := ih h
    exact ⟨d, n, hd.trans (suffix_rest_next_advance c 0), hi⟩
  | found c item' n hr hh ih =>
    rw [pieces_of_hit hr hh, Piece.items, List.mem_cons] at h
    rcases h with rfl | h
    · exact ⟨c, n, List.suffix_rfl, hh⟩
    · obtain ⟨d, k, hd, hi⟩ := ih h
      exact ⟨d, k, hd.trans (suffix_rest_next_advance c (n - 1)), hi⟩

/-- The matches in a text of stretches that each hold one. -/
theorem items_pieces_flatMap {β : Type} {Follows : Text → Prop} {text : β → Text} {item : β → α}
    {l : List β}
    (hl : ∀ b ∈ l, ∀ (c : Cursor) (v : Text), Follows v → c.rest = text b ++ v →
      Piece.items (c.pieces hit) =
        item b :: Piece.items ((c.advance (text b).length).pieces hit))
    (hf : ∀ l' : List β, l' <:+ l → Follows (l'.flatMap text)) (hr : c.rest = l.flatMap text) :
    Piece.items (c.pieces hit) = l.map item := by
  induction l generalizing c with
  | nil => rw [pieces_nil hr]; rfl
  | cons b l ih =>
    rw [hl b (by simp) c (l.flatMap text) (hf l (List.suffix_cons b l)) hr,
      ih (fun b' hb' => hl b' (by simp [hb']))
        (fun l' hl' => hf l' (hl'.trans (List.suffix_cons b l))) (rest_advance_append hr)]
    rfl

/-- What is found at all is found for the first time somewhere. -/
theorem exists_first_hit {c : Cursor} (h : ¬ Misses hit c c.rest) :
    ∃ u a v item n, c.rest = u ++ a :: v ∧ Misses hit c u ∧
      hit (c.advance u.length) = some (item, n) := by
  obtain ⟨rest, hr⟩ : ∃ rest, c.rest = rest := ⟨_, rfl⟩
  rw [hr] at h
  induction rest generalizing c with
  | nil => exact absurd (fun k hk => absurd hk (Nat.not_lt_zero k)) h
  | cons a rest ih =>
    cases hh : hit c with
    | some found => exact ⟨[], a, rest, found.1, found.2, hr, fun k hk => absurd hk (by simp), hh⟩
    | none =>
      have hn : c.next.rest = rest := by simp [rest_next, hr]
      have hcons : ∀ {u}, Misses hit c.next u → Misses hit c (a :: u) := by
        intro u hu k hk
        cases k with
        | zero => exact hh
        | succ k => exact hu k (by simpa using hk)
      obtain ⟨u, b, v, item, n, hu, hm, hhit⟩ := ih (fun hm => h (hcons hm)) hn
      exact ⟨a :: u, b, v, item, n, by rw [hr, ← hn, hu]; rfl, hcons hm, hhit⟩

theorem expand_pieces_first_hit (f : α → Text) {a : Char} {n : Nat} (hr : c.rest = u ++ a :: v)
    (hm : Misses hit c u) (hh : hit (c.advance u.length) = some (item, n)) :
    Piece.expand f (c.pieces hit) = u ++ (f item ++
      Piece.expand f (((c.advance u.length).next.advance (n - 1)).pieces hit)) := by
  have hne : (c.advance u.length).rest ≠ [] := by simp [rest_advance_append hr]
  rw [expand_pieces_of_misses f hr hm, pieces_of_hit hne hh, Piece.expand]

end Cursor

/-! ## Segments -/

open Text

/-- A piece with a backslash before an apostrophe outside code. -/
def Segment.escapedPiece : Piece Text → Text
  | .plain c => replaceChar '\x27' ['\\', '\x27'] [c]
  | .found block => block

theorem Segment.flatMap_escaped_ofPieces (ps : List (Piece Text)) :
    (ofPieces ps).flatMap escaped = ps.flatMap escapedPiece := by
  induction ps with
  | nil => rfl
  | cons p ps ih =>
    cases p with
    | found block => rw [ofPieces, List.flatMap_cons, List.flatMap_cons, ih]; rfl
    | plain c =>
      rw [List.flatMap_cons, ← ih, ofPieces]
      split
      · next t rest h =>
        rw [h, List.flatMap_cons, List.flatMap_cons, escaped, escaped, replaceChar_cons,
          List.append_assoc]
        simp [replaceChar, escapedPiece]
      · next rest _ => rw [List.flatMap_cons]; rfl

end ComponentTags
