import ComponentTags.Tag.Grammar
import Std.Data.HashMap

/-!
# Scanning the attributes of a tag

Where the attributes of a tag end is found by trying the ends of each attribute in order and
going on from there. `scan` says so directly. `search` does the same with a stack of open choices
and a memo of the positions that are settled, so that no position is looked at twice and a long
list of attributes needs no deep recursion.
-/

namespace ComponentTags.Tag

open Text

/-- Where the attributes of a tag end, and where the tag ends. -/
structure Span where
  attributesEnd : Cursor
  tagEnd : Cursor

/-- The ends of the attribute that follows the blanks between `c` and `blankEnd`; without blanks
there is no attribute. -/
def Grammar.endsAfter (g : Grammar) (c blankEnd : Cursor) : List Cursor :=
  if c.pos < blankEnd.pos then g.attributeEnds blankEnd else []

def Grammar.finish (g : Grammar) (blankEnd : Cursor) : Option Span :=
  (g.ending blankEnd).map fun tagEnd => ⟨blankEnd, tagEnd⟩

theorem Grammar.precedes_of_mem_endsAfter {g : Grammar} {c e : Cursor}
    (h : e ∈ g.endsAfter c (c.skipWhile isBlank)) : c.Precedes e := by
  unfold endsAfter at h
  split at h
  · have h' := precedes_of_mem_attributeEnds h
    exact ⟨h'.1.trans (Cursor.text_skipWhile _ _),
      Nat.lt_of_lt_of_le h'.2 (Cursor.length_rest_skipWhile_le _ _)⟩
  · simp at h

/-- The first way to go on through attributes to an ending. -/
def Grammar.scan (g : Grammar) (c : Cursor) : Option Span :=
  let blankEnd := c.skipWhile isBlank
  ((g.endsAfter c blankEnd).attach.findSome? fun e => g.scan e.1) <|> g.finish blankEnd
termination_by c.rest.length
decreasing_by exact (Grammar.precedes_of_mem_endsAfter e.2).2

theorem Grammar.scan_eq (g : Grammar) (c : Cursor) :
    g.scan c = ((g.endsAfter c (c.skipWhile isBlank)).findSome? g.scan <|>
      g.finish (c.skipWhile isBlank)) := by
  have h : ∀ l : List Cursor, (l.attach.findSome? fun e => g.scan e.1) = l.findSome? g.scan := by
    intro l
    rw [← List.attach_map_subtype_val l, List.findSome?_map]
    simp [Function.comp_def]
  rw [scan]
  simp only [h]

/-! ## With a stack and a memo -/

/-- A position whose choices are open. -/
structure Frame where
  start : Cursor
  blankEnd : Cursor
  /-- The ends of the next attribute that are still to be tried. -/
  pending : List Cursor

/-- The frame of a position of which nothing was tried. -/
def Grammar.frame (g : Grammar) (c : Cursor) : Frame :=
  let blankEnd := c.skipWhile isBlank
  ⟨c, blankEnd, g.endsAfter c blankEnd⟩

/-- The answers for the positions that are settled. -/
abbrev Memo := Std.HashMap Nat (Option Span)

structure Search where
  /-- The open positions, the last one first. -/
  stack : List Frame
  memo : Memo
  /-- The answer for the position that was settled last. -/
  result : Option Span

/-- One step of a search with the open position `f` on top: an answer settles it, and without one
the next end is tried, or the ending if there is none left. -/
def Grammar.step (g : Grammar) (f : Frame) (below : List Frame) (memo : Memo)
    (result : Option Span) : Search :=
  match result with
  | some span => ⟨below, memo.insert f.start.pos (some span), some span⟩
  | none =>
    match f.pending with
    | e :: pending =>
      let f' : Frame := ⟨f.start, f.blankEnd, pending⟩
      match memo[e.pos]? with
      | some answer => ⟨f' :: below, memo, answer⟩
      | none => ⟨g.frame e :: f' :: below, memo, none⟩
    | [] =>
      let answer := g.finish f.blankEnd
      ⟨below, memo.insert f.start.pos answer, answer⟩

/-- The most steps that a position can take. -/
def Grammar.cost (g : Grammar) (c : Cursor) : Nat :=
  (g.endsAfter c (c.skipWhile isBlank)).attach.foldr (fun e n => g.cost e.1 + 1 + n) 1
termination_by c.rest.length
decreasing_by exact (Grammar.precedes_of_mem_endsAfter e.2).2

def Grammar.frameCost (g : Grammar) (f : Frame) : Nat :=
  f.pending.foldr (fun e n => g.cost e + 1 + n) 1

theorem Grammar.frameCost_frame (g : Grammar) (c : Cursor) :
    g.frameCost (g.frame c) = g.cost c := by
  rw [frameCost, cost, List.foldr_attach (f := fun e n => g.cost e + 1 + n)]
  rfl

theorem Grammar.frameCost_pos (g : Grammar) (f : Frame) : 0 < g.frameCost f := by
  unfold frameCost
  cases f.pending with
  | nil => exact Nat.one_pos
  | cons e pending =>
    rw [List.foldr_cons]
    omega

def Grammar.stackCost (g : Grammar) (stack : List Frame) : Nat :=
  stack.foldr (fun f n => g.frameCost f + n) 0

theorem Grammar.stackCost_step (g : Grammar) (f : Frame) (below : List Frame) (memo : Memo)
    (result : Option Span) :
    g.stackCost (g.step f below memo result).stack < g.stackCost (f :: below) := by
  have hf := g.frameCost_pos f
  unfold step
  split
  · simp only [stackCost, List.foldr_cons]
    omega
  · split
    · next e pending hp =>
      have he : g.frameCost f = g.cost e + 1 + g.frameCost ⟨f.start, f.blankEnd, pending⟩ := by
        simp only [frameCost, hp, List.foldr_cons]
      simp only
      split
      · simp only [stackCost, List.foldr_cons, he]
        omega
      · simp only [stackCost, List.foldr_cons, frameCost_frame, he]
        omega
    · simp only [stackCost, List.foldr_cons]
      omega

/-- Steps until no position is open. -/
def Grammar.run (g : Grammar) (s : Search) : Option Span :=
  match s with
  | ⟨[], _, result⟩ => result
  | ⟨f :: below, memo, result⟩ => g.run (g.step f below memo result)
termination_by g.stackCost s.stack
decreasing_by exact g.stackCost_step f below memo result

/-- The answer for a position, given the answers for some positions. -/
def Grammar.searchWith (g : Grammar) (memo : Memo) (c : Cursor) : Option Span :=
  match memo[c.pos]? with
  | some answer => answer
  | none => g.run ⟨[g.frame c], memo, none⟩

def Grammar.search (g : Grammar) (c : Cursor) : Option Span :=
  g.searchWith ∅ c

end ComponentTags.Tag
