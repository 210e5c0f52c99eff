import ComponentTags.Text.Cursor

/-!
# Pieces of a text

Searching a text from left to right cuts it into pieces: characters that belong to no match, and
the matches. A search is given by `hit`, which looks at a cursor and gives what it finds there
with its length; after a match the search goes on behind it. `pieces_plain` and `pieces_found`
are the two steps of the search.
-/

namespace ComponentTags

/-- A character outside all matches, or a match. -/
inductive Piece (α : Type) where
  | plain (c : Char)
  | found (item : α)

variable {α : Type}

namespace Cursor

/-- The pieces of `rest`, which follows `before`, after `skip` characters that belong to the last
match. -/
def piecesAfter (hit : Cursor → Option (α × Nat)) :
    (rest before : Text) → (pos : Nat) → pos = before.length → (skip : Nat) → List (Piece α)
  | [], _, _, _, _ => []
  | a :: rest, before, pos, h, skip + 1 =>
    piecesAfter hit rest (a :: before) (pos + 1) (by simp [h]) skip
  | a :: rest, before, pos, h, 0 =>
    match hit ⟨before, a :: rest, pos, h⟩ with
    | none => .plain a :: piecesAfter hit rest (a :: before) (pos + 1) (by simp [h]) 0
    | some (item, n) =>
      .found item :: piecesAfter hit rest (a :: before) (pos + 1) (by simp [h]) (n - 1)

def pieces (hit : Cursor → Option (α × Nat)) (c : Cursor) : List (Piece α) :=
  piecesAfter hit c.rest c.before c.pos c.pos_eq 0

theorem piecesAfter_skip (hit : Cursor → Option (α × Nat)) (c : Cursor) (skip : Nat) :
    piecesAfter hit c.rest c.before c.pos c.pos_eq skip = (c.advance skip).pieces hit := by
  induction skip generalizing c with
  | zero => rfl
  | succ skip ih =>
    obtain ⟨before, rest, pos, h⟩ := c
    cases rest with
    | nil =>
      rw [advance, ← ih]
      simp [next, piecesAfter]
    | cons a rest =>
      rw [advance, ← ih]
      simp [next, piecesAfter]

theorem pieces_nil {hit : Cursor → Option (α × Nat)} {c : Cursor} (hr : c.rest = []) :
    c.pieces hit = [] := by
  obtain ⟨before, rest, pos, h⟩ := c
  subst hr
  rfl

theorem pieces_plain {hit : Cursor → Option (α × Nat)} {c : Cursor} {a : Char} {rest : Text}
    (hr : c.rest = a :: rest) (h : hit c = none) :
    c.pieces hit = .plain a :: c.next.pieces hit := by
  obtain ⟨before, _, pos, hp⟩ := c
  subst hr
  rw [pieces, piecesAfter]
  simp only [h]
  rfl

theorem pieces_found {hit : Cursor → Option (α × Nat)} {c : Cursor} {item : α} {n : Nat}
    (hr : c.rest ≠ []) (h : hit c = some (item, n + 1)) :
    c.pieces hit = .found item :: (c.advance (n + 1)).pieces hit := by
  obtain ⟨before, rest, pos, hp⟩ := c
  cases rest with
  | nil => exact absurd rfl hr
  | cons a rest =>
    rw [pieces, piecesAfter]
    simp only [h, Nat.add_sub_cancel]
    rw [piecesAfter_skip hit ⟨a :: before, rest, pos + 1, by simp [hp]⟩ n]
    rfl

end Cursor

namespace Piece

/-- The text with every match exchanged for what `f` makes of it. -/
def expand (f : α → Text) : List (Piece α) → Text
  | [] => []
  | .plain c :: ps => c :: expand f ps
  | .found item :: ps => f item ++ expand f ps

def items : List (Piece α) → List α
  | [] => []
  | .plain _ :: ps => items ps
  | .found item :: ps => item :: items ps

def between : List (Piece α) → List Text
  | [] => [[]]
  | .plain c :: ps =>
    match between ps with
    | [] => [[c]]
    | text :: texts => (c :: text) :: texts
  | .found _ :: ps => [] :: between ps

/-- As `expand`, with effects from left to right. -/
def expandM {m : Type → Type} [Monad m] (f : α → m Text) : List (Piece α) → m Text
  | [] => pure []
  | .plain c :: ps => (c :: ·) <$> expandM f ps
  | .found item :: ps => do
    let new ← f item
    (new ++ ·) <$> expandM f ps

end Piece

namespace Text

/-- Looks for a fixed text. -/
def literal (mark : Text) (c : Cursor) : Option (Unit × Nat) :=
  if mark.isPrefixOf c.rest then some ((), mark.length) else none

/-- The text with every occurrence of `old` exchanged for `new`. -/
def replaceAll (old new text : Text) : Text :=
  Piece.expand (fun _ => new) ((Cursor.start text).pieces (literal old))

/-- The texts between the occurrences of `mark`. -/
def splitBy (mark text : Text) : List Text :=
  Piece.between ((Cursor.start text).pieces (literal mark))

/-- The number of occurrences of `mark` that do not overlap. -/
def occurrences (mark text : Text) : Nat :=
  (Piece.items ((Cursor.start text).pieces (literal mark))).length

end Text

end ComponentTags
