import ComponentTags.Text.Basic

/-!
# Cursors

A cursor is a place in a text: what stands before it, nearest character first, what stands from
it on, and how many characters are before it. Moving a cursor never changes the text it is in
(`text_advance`), and two cursors in one text at the same position are equal (`ext_of_text`).
-/

namespace ComponentTags

/-- A place in a text. -/
structure Cursor where
  /-- The characters before the place, nearest first. -/
  before : Text
  /-- The characters from the place on. -/
  rest : Text
  /-- The number of characters before the place. -/
  pos : Nat
  pos_eq : pos = before.length

namespace Cursor

def start (text : Text) : Cursor :=
  ⟨[], text, 0, rfl⟩

/-- The text that the cursor is in. -/
def text (c : Cursor) : Text :=
  c.before.reverse ++ c.rest

/-- The cursor one character further on; the end of the text stays where it is. -/
def next (c : Cursor) : Cursor :=
  match c.rest with
  | [] => c
  | a :: rest => ⟨a :: c.before, rest, c.pos + 1, by simp [c.pos_eq]⟩

/-- The cursor `n` characters further on, or at the end of the text. -/
def advance (c : Cursor) : Nat → Cursor
  | 0 => c
  | n + 1 => c.next.advance n

/-- The cursor at position `n` of a text, or at its end. -/
def ofPos (text : Text) (n : Nat) : Cursor :=
  (start text).advance n

/-- The cursor behind the characters that satisfy `p`. -/
def skipWhile (p : Char → Bool) (c : Cursor) : Cursor :=
  c.advance (c.rest.takeWhile p).length

/-- The cursors after one, two, … and `n` further characters. -/
def steps (c : Cursor) : Nat → List Cursor
  | 0 => []
  | n + 1 => c.next :: c.next.steps n

/-- The characters from one cursor on up to a later one. -/
def upTo (c d : Cursor) : Text :=
  c.rest.take (d.pos - c.pos)

@[simp] theorem text_start (t : Text) : (start t).text = t := rfl

@[simp] theorem pos_start (t : Text) : (start t).pos = 0 := rfl

@[simp] theorem text_next (c : Cursor) : c.next.text = c.text := by
  unfold next
  split
  · rfl
  · next a rest h => simp [text, h]

@[simp] theorem text_advance (c : Cursor) (n : Nat) : (c.advance n).text = c.text := by
  induction n generalizing c with
  | zero => rfl
  | succ n ih => simp [advance, ih]

theorem rest_next (c : Cursor) : c.next.rest = c.rest.drop 1 := by
  unfold next
  split
  · next h => simp [h]
  · next a rest h => simp [h]

theorem rest_advance (c : Cursor) (n : Nat) : (c.advance n).rest = c.rest.drop n := by
  induction n generalizing c with
  | zero => rfl
  | succ n ih => rw [advance, ih, rest_next, List.drop_drop, Nat.add_comm]

theorem pos_add_length (c : Cursor) : c.pos + c.rest.length = c.text.length := by
  simp [text, c.pos_eq]

theorem pos_le_length (c : Cursor) : c.pos ≤ c.text.length := by
  have := c.pos_add_length
  omega

theorem pos_advance {c : Cursor} {n : Nat} (h : n ≤ c.rest.length) :
    (c.advance n).pos = c.pos + n := by
  have h₁ := c.pos_add_length
  have h₂ := (c.advance n).pos_add_length
  rw [text_advance, rest_advance, List.length_drop] at h₂
  omega

theorem ext_of_text {c d : Cursor} (ht : c.text = d.text) (hp : c.pos = d.pos) : c = d := by
  obtain ⟨b, r, p, hpb⟩ := c
  obtain ⟨b', r', p', hpb'⟩ := d
  simp only [text] at ht
  simp only at hp
  have hl : b.reverse.length = b'.reverse.length := by simp [← hpb, ← hpb', hp]
  obtain ⟨hb, hr⟩ := List.append_inj ht hl
  have hb' : b = b' := List.reverse_inj.1 hb
  subst hb' hr hp
  rfl

theorem mem_steps {c d : Cursor} {n : Nat} (h : d ∈ c.steps n) :
    ∃ k, 1 ≤ k ∧ k ≤ n ∧ d = c.advance k := by
  induction n generalizing c with
  | zero => simp [steps] at h
  | succ n ih =>
    rw [steps, List.mem_cons] at h
    obtain rfl | h := h
    · exact ⟨1, by omega, by omega, rfl⟩
    · obtain ⟨k, h₁, h₂, rfl⟩ := ih h
      exact ⟨k + 1, by omega, by omega, rfl⟩

end Cursor

end ComponentTags
