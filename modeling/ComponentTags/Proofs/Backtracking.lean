import ComponentTags.Tag.Kinds

/-!
# The search for the end of a tag is plain backtracking

`search` keeps a stack of open positions, one answer that is handed from frame to frame, and a
memo. Its answer is the one of `scan`, which tries the ends of each attribute in order
(`search_eq_scan_and_searchWith_eq_scan`).

1. A memo agrees with `scan` in a text if every answer in it is the answer of `scan` there
   (`Agrees`).
2. Every frame waits for the answer of the frame above it: with that answer, the ends that it has
   not tried yet and its ending, it comes to the answer of `scan` for its position (`Waits`).
3. A step keeps both (`Sound.step`), and so a run that begins with both ends with the answer of
   the lowest frame (`run_eq_of_sound`).
-/

namespace ComponentTags.Tag

open Text

variable {g : Grammar} {text : Text} {memo : Memo} {final : Option Span}

/-! ## Memos -/

/-- Every answer of the memo for a position of the text is the one that plain backtracking has
there. -/
def Grammar.Agrees (g : Grammar) (text : Text) (memo : Memo) : Prop :=
  ∀ c : Cursor, c.text = text → ∀ answer, memo[c.pos]? = some answer → answer = g.scan c

theorem Grammar.agrees_empty (g : Grammar) (text : Text) : g.Agrees text ∅ := by
  intro c _ answer h
  simp at h

theorem Grammar.Agrees.insert (h : g.Agrees text memo) {c : Cursor} (hc : c.text = text) :
    g.Agrees text (memo.insert c.pos (g.scan c)) := by
  intro d hd answer ha
  rw [Std.HashMap.getElem?_insert] at ha
  split at ha
  · next hp =>
    have hcd : c = d := Cursor.ext_of_text (hc.trans hd.symm) (by simpa using hp)
    rw [← hcd]
    exact (Option.some.inj ha).symm
  · exact h d hd answer ha

/-! ## Stacks -/

/-- Each frame of a stack comes to the answer for its position with the answer from above, which
for the top frame is `result`; the lowest frame hands on `final`. -/
def Grammar.Waits (g : Grammar) (text : Text) (final : Option Span) :
    (result : Option Span) → List Frame → Prop
  | result, [] => result = final
  | result, f :: below =>
    f.start.text = text ∧ (∀ e ∈ f.pending, e.text = text) ∧
      g.scan f.start = (result <|> f.pending.findSome? g.scan <|> g.finish f.blankEnd) ∧
      Waits g text final (g.scan f.start) below

theorem Grammar.waits_frame {c : Cursor} {below : List Frame} (hc : c.text = text)
    (hb : g.Waits text final (g.scan c) below) :
    g.Waits text final none (g.frame c :: below) := by
  refine ⟨hc, fun e he => ?_, ?_, hb⟩
  · exact (precedes_of_mem_endsAfter he).1.trans hc
  · exact g.scan_eq c

/-- What holds at every moment of a search that is to answer `final`. -/
structure Search.Sound (g : Grammar) (text : Text) (final : Option Span) (s : Search) : Prop where
  agrees : g.Agrees text s.memo
  waits : g.Waits text final s.result s.stack

/-- The top frame leaves the stack with the answer for its position, which the memo takes up. -/
theorem Search.Sound.pop {f : Frame} {below : List Frame} {result answer : Option Span}
    (h : Search.Sound g text final ⟨f :: below, memo, result⟩) (ha : g.scan f.start = answer) :
    Search.Sound g text final ⟨below, memo.insert f.start.pos answer, answer⟩ := by
  obtain ⟨hm, hf, _, _, hb⟩ := h
  subst ha
  exact ⟨hm.insert hf, hb⟩

/-- A step of a search keeps the memo and the stack in order. -/
theorem Search.Sound.step {f : Frame} {below : List Frame} {result : Option Span}
    (h : Search.Sound g text final ⟨f :: below, memo, result⟩) :
    Search.Sound g text final (g.step f below memo result) := by
  obtain ⟨hm, hf, hp, hs, hb⟩ := id h
  unfold Grammar.step
  rcases result with _ | span
  · rcases hpe : f.pending with _ | ⟨e, pending⟩
    · -- no end is left, so the ending decides
      rw [hpe] at hs
      exact h.pop (by simpa using hs)
    · rw [hpe] at hs hp
      rw [List.findSome?_cons] at hs
      have he : e.text = text := hp e (by simp)
      have hp' : ∀ d ∈ pending, d.text = text := fun d hd => hp d (by simp [hd])
      -- the frame without `e` waits for the answer of `e`
      have hw : g.Waits text final (g.scan e) (⟨f.start, f.blankEnd, pending⟩ :: below) := by
        refine ⟨hf, hp', ?_, hb⟩
        rw [hs]
        cases g.scan e <;> rfl
      rcases ha : memo[e.pos]? with _ | answer
      · simp only [ha]
        exact ⟨hm, Grammar.waits_frame he hw⟩
      · obtain rfl := hm e he answer ha
        simp only [ha]
        exact ⟨hm, hw⟩
  · exact h.pop (by simpa using hs)

/-- A search in order ends with the answer it is to give. -/
theorem Grammar.run_eq_of_sound {s : Search} (h : Search.Sound g text final s) :
    g.run s = final := by
  induction s using Grammar.run.induct g with
  | case1 memo result =>
    rw [Grammar.run]
    exact h.waits
  | case2 f below memo result ih =>
    rw [Grammar.run]
    exact ih h.step

theorem Grammar.searchWith_eq_scan {c : Cursor} (h : g.Agrees c.text memo) :
    g.searchWith memo c = g.scan c := by
  unfold Grammar.searchWith
  rcases ha : memo[c.pos]? with _ | answer
  · exact g.run_eq_of_sound ⟨h, Grammar.waits_frame rfl rfl⟩
  · exact h c rfl answer ha

theorem Grammar.search_eq_scan (g : Grammar) (c : Cursor) : g.search c = g.scan c :=
  g.searchWith_eq_scan (g.agrees_empty c.text)

/-- **The search is plain backtracking.** From every position the search with an empty memo has
the answer of `scan`, and so has the search with any memo that agrees with `scan`. -/
theorem search_eq_scan_and_searchWith_eq_scan (g : Grammar) (c : Cursor) :
    g.search c = g.scan c ∧
      ∀ memo : Memo, g.Agrees c.text memo → g.searchWith memo c = g.scan c :=
  ⟨g.search_eq_scan c, fun _ h => g.searchWith_eq_scan h⟩

/-- In ` a=b c/>` the longest value of `a` leaves only the bracket, where no self-closing tag
ends; a memo that says so before the search begins changes nothing. -/
theorem searchWith_eq_scan_of_refused_bracket :
    Grammar.selfClosing.Agrees " a=b c/>".toList ((∅ : Memo).insert 7 none) ∧
      Grammar.selfClosing.searchWith ((∅ : Memo).insert 7 none)
          (Cursor.start " a=b c/>".toList) =
        Grammar.selfClosing.scan (Cursor.start " a=b c/>".toList) ∧
      ((Grammar.selfClosing.scan (Cursor.start " a=b c/>".toList)).map fun span =>
        (span.attributesEnd.pos, span.tagEnd.pos)) = some (6, 8) := by
  have hs : Grammar.selfClosing.scan (Cursor.ofPos " a=b c/>".toList 7) = none := by
    rw [← Option.isNone_iff_eq_none]
    decide +kernel
  have h : Grammar.selfClosing.Agrees " a=b c/>".toList ((∅ : Memo).insert 7 none) := by
    rw [← hs]
    exact (Grammar.agrees_empty _ _).insert (c := Cursor.ofPos " a=b c/>".toList 7) rfl
  exact ⟨h, (search_eq_scan_and_searchWith_eq_scan _ (Cursor.start " a=b c/>".toList)).2 _ h,
    by decide +kernel⟩

end ComponentTags.Tag
