import ComponentTags.Tag.Kinds
import Mathlib.Data.Finset.Card
import Mathlib.Data.Finset.Range

/-!
# The search opens no position twice

The search for the end of a tag goes on in iterations, each of them one step (`Grammar.after`). At
every moment the open positions grow from the bottom of the stack to its top, none of them is
settled, and all that is to be tried for a position is further on (`Search.Ordered`). So a position
that a step opens was neither open nor settled before (`Search.Ordered.iterate`), and whatever was
opened stays open until it is settled, and stays settled (`Grammar.Recorded`): no position is opened
twice.

Hence the search ends. A position that is opened takes as many iterations as it has ends, and one
more, so that all of them are at most quadratically many (`Grammar.paid_after`).
-/

namespace ComponentTags.Tag

open Text

variable {g : Grammar} {text : Text} {s : Search} {f : Frame} {below : List Frame} {memo : Memo}
  {result : Option Span} {c e : Cursor} {pending : List Cursor}

/-! ## Iterations -/

/-- The search one iteration later; without an open position it has ended. -/
def Grammar.iterate (g : Grammar) : Search → Search
  | ⟨[], memo, result⟩ => ⟨[], memo, result⟩
  | ⟨f :: below, memo, result⟩ => g.step f below memo result

/-- The search after `n` iterations. -/
def Grammar.after (g : Grammar) (s : Search) : Nat → Search
  | 0 => s
  | n + 1 => g.iterate (g.after s n)

/-- The search from a position, before its first iteration. -/
def Grammar.begin (g : Grammar) (memo : Memo) (c : Cursor) : Search :=
  ⟨[g.frame c], memo, none⟩

/-- The positions of a stack, the top one first. -/
def positions (stack : List Frame) : List Nat :=
  stack.map fun f => f.start.pos

@[simp] theorem positions_cons (f : Frame) (below : List Frame) :
    positions (f :: below) = f.start.pos :: positions below := rfl

/-- The position that is opened from one moment to another: the stack has grown, and it is on
top. -/
def Search.opens? (s t : Search) : Option Nat :=
  if s.stack.length < t.stack.length then (positions t.stack).head? else none

/-- The positions that are opened before the iteration `n`, the last one first. -/
def Grammar.opened (g : Grammar) (s : Search) : Nat → List Nat
  | 0 => positions s.stack
  | n + 1 => ((g.after s n).opens? (g.after s (n + 1))).toList ++ g.opened s n

/-- What a step does: it settles the top position, it tries an end of it that is settled, or it
opens the position of an end that is not. -/
theorem Grammar.step_cases (g : Grammar) (f : Frame) (below : List Frame) (memo : Memo)
    (result : Option Span) :
    (∃ answer, g.step f below memo result =
      ⟨below, memo.insert f.start.pos answer, answer⟩) ∨
    (∃ e pending answer, f.pending = e :: pending ∧
      g.step f below memo result = ⟨⟨f.start, f.blankEnd, pending⟩ :: below, memo, answer⟩) ∨
    ∃ e pending, f.pending = e :: pending ∧ e.pos ∉ memo ∧
      g.step f below memo result =
        ⟨g.frame e :: ⟨f.start, f.blankEnd, pending⟩ :: below, memo, none⟩ := by
  unfold step
  rcases result with _ | span
  · rcases hp : f.pending with _ | ⟨e, pending⟩
    · exact .inl ⟨_, rfl⟩
    · rcases ha : memo[e.pos]? with _ | answer
      · refine .inr (.inr ⟨e, pending, rfl, ?_, by simp [ha]⟩)
        rw [Std.HashMap.mem_iff_isSome_getElem?, ha]
        simp
      · exact .inr (.inl ⟨e, pending, answer, rfl, by simp [ha]⟩)
  · exact .inl ⟨_, rfl⟩

/-! ## Order on the stack -/

/-- The frame of a position of the text, perhaps without the first of its ends. -/
structure Frame.IsOf (g : Grammar) (text : Text) (f : Frame) : Prop where
  text_eq : f.start.text = text
  blankEnd_eq : f.blankEnd = f.start.skipWhile isBlank
  pending_suffix : f.pending <:+ g.endsAfter f.start f.blankEnd

theorem Frame.isOf_frame (g : Grammar) (c : Cursor) : (g.frame c).IsOf g c.text :=
  ⟨rfl, rfl, List.suffix_refl _⟩

theorem Frame.IsOf.precedes (h : f.IsOf g text) (he : e ∈ g.endsAfter f.start f.blankEnd) :
    f.start.Precedes e := by
  rw [h.blankEnd_eq] at he
  exact Grammar.precedes_of_mem_endsAfter he

theorem Frame.IsOf.tail (h : f.IsOf g text) (hp : f.pending = e :: pending) :
    Frame.IsOf g text ⟨f.start, f.blankEnd, pending⟩ :=
  ⟨h.text_eq, h.blankEnd_eq, (hp ▸ List.suffix_cons e pending).trans h.pending_suffix⟩

/-- What holds of a search in a text before every iteration. -/
structure Search.Ordered (g : Grammar) (text : Text) (s : Search) : Prop where
  frames : ∀ f ∈ s.stack, f.IsOf g text
  /-- The positions grow from the bottom to the top. -/
  increasing : (positions s.stack).Pairwise (· > ·)
  /-- No open position is settled. -/
  unsettled : ∀ p ∈ positions s.stack, p ∉ s.memo

namespace Search.Ordered

theorem begin (hmemo : c.pos ∉ memo) : Search.Ordered g c.text (g.begin memo c) := by
  refine ⟨?_, List.pairwise_singleton _ _, ?_⟩
  · simpa [Grammar.begin] using Frame.isOf_frame g c
  · simpa [Grammar.begin, positions, Grammar.frame] using hmemo

/-- The ends of the top position are further on than all open positions. -/
theorem lt_of_mem_endsAfter (h : Search.Ordered g text ⟨f :: below, memo, result⟩)
    (he : e ∈ g.endsAfter f.start f.blankEnd) : ∀ p ∈ positions (f :: below), p < e.pos := by
  have hlt := ((h.frames f (by simp)).precedes he).pos_lt
  have htop := (List.pairwise_cons.1 h.increasing).1
  rw [positions_cons, List.forall_mem_cons]
  exact ⟨hlt, fun p hp => Nat.lt_trans (htop p hp) hlt⟩

theorem pop (h : Search.Ordered g text ⟨f :: below, memo, result⟩) (answer : Option Span) :
    Search.Ordered g text ⟨below, memo.insert f.start.pos answer, answer⟩ := by
  obtain ⟨hframes, hincreasing, hunsettled⟩ := h
  rw [positions_cons, List.pairwise_cons] at hincreasing
  rw [positions_cons, List.forall_mem_cons] at hunsettled
  refine ⟨(List.forall_mem_cons.1 hframes).2, hincreasing.2, fun p hp => ?_⟩
  -- the settled position is higher than those that are left, so it is none of them
  have hne : f.start.pos ≠ p := Nat.ne_of_gt (hincreasing.1 p hp)
  simpa [Std.HashMap.mem_insert, hne] using hunsettled.2 p hp

theorem tried (h : Search.Ordered g text ⟨f :: below, memo, result⟩)
    (hp : f.pending = e :: pending) (answer : Option Span) :
    Search.Ordered g text ⟨⟨f.start, f.blankEnd, pending⟩ :: below, memo, answer⟩ := by
  obtain ⟨hf, hbelow⟩ := List.forall_mem_cons.1 h.frames
  exact ⟨List.forall_mem_cons.2 ⟨hf.tail hp, hbelow⟩, h.increasing, h.unsettled⟩

theorem push (h : Search.Ordered g text ⟨f :: below, memo, result⟩)
    (he : e ∈ g.endsAfter f.start f.blankEnd) (hmemo : e.pos ∉ memo) :
    Search.Ordered g text ⟨g.frame e :: f :: below, memo, result⟩ := by
  have hf := h.frames f (by simp)
  have htext : e.text = text := (hf.precedes he).1.trans hf.text_eq
  exact ⟨List.forall_mem_cons.2 ⟨htext ▸ Frame.isOf_frame g e, h.frames⟩,
    List.pairwise_cons.2 ⟨h.lt_of_mem_endsAfter he, h.increasing⟩,
    List.forall_mem_cons.2 ⟨hmemo, h.unsettled⟩⟩

theorem pos_le (h : Search.Ordered g text s) : ∀ p ∈ positions s.stack, p ≤ text.length := by
  intro p hp
  obtain ⟨f, hf, rfl⟩ := List.mem_map.1 hp
  exact (h.frames f hf).text_eq ▸ f.start.pos_le_length

end Search.Ordered

/-! ## One iteration -/

/-- The iterations that a stack can take without opening a position. -/
def charge (stack : List Frame) : Nat :=
  stack.foldr (fun f n => f.pending.length + 1 + n) 0

@[simp] theorem charge_cons (f : Frame) (below : List Frame) :
    charge (f :: below) = f.pending.length + 1 + charge below := rfl

/-- What an iteration does: without opening a position it keeps what is open or settled, and it
opens a position only if it is neither. Every iteration is charged to an end or to a position. -/
inductive Iterates (g : Grammar) (text : Text) (s t : Search) : Prop
  | quiet (hopens : s.opens? t = none)
      (hkept : ∀ p, p ∈ positions s.stack ∨ p ∈ s.memo → p ∈ positions t.stack ∨ p ∈ t.memo)
      (hcharge : charge t.stack + 1 ≤ charge s.stack)
  | opens (e : Cursor) (hopens : s.opens? t = some e.pos) (htext : e.text = text)
      (hopen : e.pos ∉ positions s.stack) (hsettled : e.pos ∉ s.memo)
      (hstack : positions t.stack = e.pos :: positions s.stack) (hmemo : t.memo = s.memo)
      (hcharge : charge t.stack = charge s.stack + (g.frame e).pending.length)

theorem Search.Ordered.iterate (h : Search.Ordered g text s) (hs : s.stack ≠ []) :
    Search.Ordered g text (g.iterate s) ∧ Iterates g text s (g.iterate s) := by
  obtain ⟨stack, memo, result⟩ := s
  rcases stack with _ | ⟨f, below⟩
  · exact absurd rfl hs
  rw [Grammar.iterate]
  obtain ⟨answer, hstep⟩ | ⟨e, pending, answer, hp, hstep⟩ | ⟨e, pending, hp, he, hstep⟩ :=
    g.step_cases f below memo result
  · rw [hstep]
    refine ⟨h.pop answer, .quiet ?_ ?_ ?_⟩
    · simp [Search.opens?]
    · intro p hp
      simp only [positions_cons, List.mem_cons] at hp
      simp only [Std.HashMap.mem_insert, beq_iff_eq]
      grind
    · simp only [charge_cons]
      omega
  · rw [hstep]
    refine ⟨h.tried hp answer, .quiet ?_ ?_ ?_⟩
    · simp [Search.opens?]
    · exact fun p hp => hp
    · simp only [charge_cons, hp, List.length_cons]
      omega
  · rw [hstep]
    have hmem : e ∈ g.endsAfter f.start f.blankEnd :=
      (h.frames f (by simp)).pending_suffix.subset (by simp [hp])
    have hlt := h.lt_of_mem_endsAfter hmem
    have hf := h.frames f (by simp)
    refine ⟨?_, .opens e ?_ ((hf.precedes hmem).1.trans hf.text_eq) ?_ he rfl rfl ?_⟩
    · exact (h.tried hp none).push hmem he
    · simp [Search.opens?, Grammar.frame]
    · exact fun hin => Nat.lt_irrefl _ (hlt _ hin)
    · simp only [charge_cons, hp, List.length_cons]
      omega

/-! ## All iterations -/

theorem Grammar.iterate_of_nil (hs : s.stack = []) : g.iterate s = s := by
  obtain ⟨stack, memo, result⟩ := s
  obtain rfl : stack = [] := hs
  rfl

theorem Grammar.ordered_after (h : Search.Ordered g text s) (n : Nat) :
    Search.Ordered g text (g.after s n) := by
  induction n with
  | zero => exact h
  | succ n ih =>
    rw [after]
    by_cases hs : (g.after s n).stack = []
    · rwa [iterate_of_nil hs]
    · exact (ih.iterate hs).1

/-- The positions that are opened before an iteration are in the text, they are still open or
settled, and none of them comes twice. -/
structure Grammar.Recorded (g : Grammar) (text : Text) (s : Search) (n : Nat) : Prop where
  nodup : (g.opened s n).Nodup
  known : ∀ p ∈ g.opened s n, p ∈ positions (g.after s n).stack ∨ p ∈ (g.after s n).memo
  le_length : ∀ p ∈ g.opened s n, p ≤ text.length

theorem Grammar.recorded_after (h : Search.Ordered g text s) (n : Nat) : g.Recorded text s n := by
  induction n with
  | zero =>
    refine ⟨?_, fun p hp => .inl hp, h.pos_le⟩
    exact h.increasing.imp fun hlt => Nat.ne_of_gt hlt
  | succ n ih =>
    by_cases hs : (g.after s n).stack = []
    · have hopened : g.opened s (n + 1) = g.opened s n := by
        simp [opened, after, iterate_of_nil hs, Search.opens?]
      have hafter : g.after s (n + 1) = g.after s n := iterate_of_nil hs
      refine ⟨hopened ▸ ih.nodup, ?_, hopened ▸ ih.le_length⟩
      rw [hopened, hafter]
      exact ih.known
    · cases ((g.ordered_after h n).iterate hs).2 with
      | quiet hopens hkept =>
        have hopened : g.opened s (n + 1) = g.opened s n := by
          simp [opened, after, hopens]
        refine ⟨hopened ▸ ih.nodup, fun p hp => ?_, hopened ▸ ih.le_length⟩
        exact hkept p (ih.known p (hopened ▸ hp))
      | opens e hopens htext hopen hsettled hstack hmemo =>
        have hopened : g.opened s (n + 1) = e.pos :: g.opened s n := by
          simp [opened, after, hopens]
        -- what was opened before is open or settled, and `e` is neither
        have hnew : e.pos ∉ g.opened s n := by
          intro hin
          rcases ih.known _ hin with hin | hin
          · exact hopen hin
          · exact hsettled hin
        refine ⟨hopened ▸ List.nodup_cons.2 ⟨hnew, ih.nodup⟩, fun p hp => ?_, ?_⟩
        · rw [after, hstack, hmemo]
          rw [hopened] at hp
          rcases List.mem_cons.1 hp with rfl | hp
          · exact .inl List.mem_cons_self
          · exact (ih.known p hp).imp_left (List.mem_cons_of_mem _)
        · rw [hopened, List.forall_mem_cons]
          exact ⟨htext ▸ e.pos_le_length, ih.le_length⟩

/-- There are no more openings than positions in the text. -/
theorem Grammar.Recorded.length_le {n : Nat} (h : g.Recorded text s n) :
    (g.opened s n).length ≤ text.length + 1 := by
  rw [← List.toFinset_card_of_nodup h.nodup, ← Finset.card_range (text.length + 1)]
  refine Finset.card_le_card fun p hp => ?_
  have hle := h.le_length p (List.mem_toFinset.1 hp)
  exact Finset.mem_range.2 (by omega)

/-! ## The number of iterations -/

theorem length_callEnds_le (directive : Text) (c : Cursor) :
    (callEnds directive c).length ≤ 1 := by
  unfold callEnds
  split <;> simp

theorem length_bagEnds_le (c : Cursor) : (bagEnds c).length ≤ 1 := by
  unfold bagEnds
  split <;> simp

theorem length_variableEnds_le (c : Cursor) : (variableEnds c).length ≤ 1 := by
  unfold variableEnds
  split
  · dsimp only
    split <;> simp
  · simp

theorem length_quotedEnds_le (quote : Char) (c : Cursor) : (quotedEnds quote c).length ≤ 1 := by
  unfold quotedEnds
  split
  · simp
  · dsimp only
    split <;> simp

theorem length_steps (c : Cursor) (n : Nat) : (c.steps n).length = n := by
  induction n generalizing c with
  | zero => rfl
  | succ n ih => rw [Cursor.steps, List.length_cons, ih]

theorem length_unquotedEnds_le (c : Cursor) : (unquotedEnds c).length ≤ c.rest.length := by
  rw [unquotedEnds, List.length_reverse, length_steps]
  exact (List.takeWhile_sublist _).length_le

theorem length_valueEnds_le (c : Cursor) : (valueEnds c).length ≤ c.rest.length + 2 := by
  unfold valueEnds
  split
  · simp
  · next d hd =>
    have hrest : d.rest.length ≤ c.rest.length := by
      unfold Cursor.expect? at hd
      split at hd
      · obtain rfl := Option.some.inj hd
        rw [Cursor.rest_advance, List.length_drop]
        omega
      · simp at hd
    have hdouble := length_quotedEnds_le '"' d
    have hsingle := length_quotedEnds_le '\x27' d
    have hunquoted := length_unquotedEnds_le d
    simp only [List.length_append]
    omega

theorem length_namedEnds_le (c : Cursor) : (namedEnds c).length ≤ c.rest.length + 3 := by
  unfold namedEnds
  dsimp only
  split
  · simp
  · have hvalue := length_valueEnds_le (c.advance (c.rest.takeWhile isAttributeNameChar).length)
    rw [Cursor.rest_advance, List.length_drop] at hvalue
    rw [List.length_append, List.length_singleton]
    omega

theorem Grammar.length_attributeEnds_le (g : Grammar) (c : Cursor) :
    (g.attributeEnds c).length ≤ c.rest.length + 7 := by
  have hclass := length_callEnds_le Shorthand.classDirective c
  have hstyle := length_callEnds_le Shorthand.styleDirective c
  have hbag := length_bagEnds_le c
  have hvariable := length_variableEnds_le c
  have hnamed := length_namedEnds_le c
  unfold attributeEnds
  split <;> split <;> simp only [List.length_append, List.length_nil] <;> omega

/-- A position has at most seven ends more than characters behind it. -/
theorem Grammar.length_pending_frame_le (g : Grammar) (c : Cursor) :
    (g.frame c).pending.length ≤ c.text.length + 7 := by
  have hends := g.length_attributeEnds_le (c.skipWhile isBlank)
  have hskip := c.length_rest_skipWhile_le isBlank
  have hpos := c.pos_add_length
  unfold frame endsAfter
  dsimp only
  split
  · omega
  · simp

/-- The iterations so far, and those that the stack can still take without opening a position, are
paid for by the positions that were opened. -/
theorem Grammar.paid_after (h : Search.Ordered g text s)
    (hstart : charge s.stack ≤ (text.length + 8) * (positions s.stack).length) (n : Nat) :
    (g.after s n).stack = [] ∨
      n + charge (g.after s n).stack ≤ (text.length + 8) * (g.opened s n).length := by
  induction n with
  | zero => exact .inr (by simpa [after, opened] using hstart)
  | succ n ih =>
    by_cases hs : (g.after s n).stack = []
    · exact .inl (by rw [after, iterate_of_nil hs, hs])
    · have hpaid := ih.resolve_left hs
      right
      cases ((g.ordered_after h n).iterate hs).2 with
      | quiet hopens hkept hcharge =>
        have hopened : g.opened s (n + 1) = g.opened s n := by
          simp [opened, after, hopens]
        rw [hopened, after]
        omega
      | opens e hopens htext hopen hsettled hstack hmemo hcharge =>
        have hopened : g.opened s (n + 1) = e.pos :: g.opened s n := by
          simp [opened, after, hopens]
        have hends := g.length_pending_frame_le e
        rw [htext] at hends
        rw [hopened, after, hcharge, List.length_cons, Nat.mul_succ]
        omega

/-- After quadratically many iterations no position is open. -/
theorem Grammar.stack_after_eq_nil (hmemo : c.pos ∉ memo) :
    (g.after (g.begin memo c) ((c.text.length + 8) * (c.text.length + 1))).stack = [] := by
  have hordered := Search.Ordered.begin (g := g) hmemo
  have hstart : charge (g.begin memo c).stack ≤
      (c.text.length + 8) * (positions (g.begin memo c).stack).length := by
    have hends := g.length_pending_frame_le c
    simp [begin, charge, positions]
    omega
  rcases g.paid_after hordered hstart ((c.text.length + 8) * (c.text.length + 1)) with hnil | hpaid
  · exact hnil
  · have hle := Nat.mul_le_mul_left (c.text.length + 8)
      (g.recorded_after hordered ((c.text.length + 8) * (c.text.length + 1))).length_le
    generalize (g.after (g.begin memo c) _).stack = stack at hpaid ⊢
    rcases stack with _ | ⟨f, below⟩
    · rfl
    · rw [charge_cons] at hpaid
      omega

theorem Grammar.run_after (g : Grammar) (s : Search) (n : Nat) :
    g.run (g.after s n) = g.run s := by
  induction n with
  | zero => rfl
  | succ n ih =>
    rw [← ih, after]
    obtain ⟨stack, memo, result⟩ := g.after s n
    rcases stack with _ | ⟨f, below⟩
    · rfl
    · rw [iterate, run]

theorem Grammar.run_of_nil (g : Grammar) (hs : s.stack = []) : g.run s = s.result := by
  obtain ⟨stack, memo, result⟩ := s
  obtain rfl : stack = [] := hs
  rw [run]

theorem Grammar.searchWith_of_not_mem (g : Grammar) (hmemo : c.pos ∉ memo) :
    g.searchWith memo c = g.run (g.begin memo c) := by
  rw [searchWith, Std.HashMap.getElem?_eq_none hmemo, begin]

/-- **No position is opened twice.** Let a search begin at a position that its memo has no answer
for. Before every iteration the positions on the stack grow from the bottom to the top, no position
on the stack is in the memo, and all ends that there are to try for it are further on. No position
of the text is opened twice, and after quadratically many iterations the search has ended, with its
answer. -/
theorem search_opens_once (g : Grammar) (c : Cursor) (memo : Memo) (hmemo : c.pos ∉ memo) :
    (∀ n, (positions (g.after (g.begin memo c) n).stack).Pairwise (· > ·) ∧
      ∀ f ∈ (g.after (g.begin memo c) n).stack,
        f.start.pos ∉ (g.after (g.begin memo c) n).memo ∧
        f.pending <:+ g.endsAfter f.start f.blankEnd ∧
        ∀ e ∈ g.endsAfter f.start f.blankEnd, f.start.pos < e.pos) ∧
    (∀ n, (g.opened (g.begin memo c) n).Nodup ∧
      ∀ p ∈ g.opened (g.begin memo c) n, p ≤ c.text.length) ∧
    ∃ n ≤ (c.text.length + 8) * (c.text.length + 1),
      (g.after (g.begin memo c) n).stack = [] ∧
        (g.after (g.begin memo c) n).result = g.searchWith memo c := by
  have hordered := Search.Ordered.begin (g := g) hmemo
  refine ⟨fun n => ?_, fun n => ?_, _, Nat.le_refl _, g.stack_after_eq_nil hmemo, ?_⟩
  · obtain ⟨hframes, hincreasing, hunsettled⟩ := g.ordered_after hordered n
    refine ⟨hincreasing, fun f hf => ⟨?_, (hframes f hf).pending_suffix, fun e he => ?_⟩⟩
    · exact hunsettled _ (List.mem_map.2 ⟨f, hf, rfl⟩)
    · exact ((hframes f hf).precedes he).pos_lt
  · have hrecorded := g.recorded_after hordered n
    exact ⟨hrecorded.nodup, hrecorded.le_length⟩
  · rw [← g.run_of_nil (g.stack_after_eq_nil hmemo), g.run_after, g.searchWith_of_not_mem hmemo]

/-- In ` a=b c/>` the longest value of `a` is followed by the bracket alone, of which the memo says
before the search begins that no tag ends there. -/
theorem search_opens_once_refused_bracket :
    (Cursor.start " a=b c/>".toList).pos ∉ (∅ : Memo).insert 7 none ∧
      (∀ n, (Grammar.selfClosing.opened (Grammar.selfClosing.begin ((∅ : Memo).insert 7 none)
        (Cursor.start " a=b c/>".toList)) n).Nodup) ∧
      ∃ n ≤ 16 * 9, (Grammar.selfClosing.after (Grammar.selfClosing.begin
        ((∅ : Memo).insert 7 none) (Cursor.start " a=b c/>".toList)) n).stack = [] := by
  have hmemo : (Cursor.start " a=b c/>".toList).pos ∉ (∅ : Memo).insert 7 none := by
    simp [Std.HashMap.mem_insert]
  obtain ⟨-, hopened, n, hn, hstack, -⟩ := search_opens_once Grammar.selfClosing _ _ hmemo
  exact ⟨hmemo, fun n => (hopened n).1, n, hn, hstack⟩

end ComponentTags.Tag
