import ComponentTags.Attribute.Parse
import ComponentTags.Echo
import ComponentTags.Proofs.Replacing

/-!
# Texts without tags

No tag begins in a text in which a question mark follows every `<` (`Quiet`): that is a text
without `<`, or one with blocks of code. What is made of a literal value is quiet if the value is.

1. A search that finds nothing at a question mark replaces in a quiet text what it finds by quiet
   texts, and the result is quiet (`Quiet.expand`).
2. So echos can be compiled (`Quiet.compile`), apostrophes escaped (`Quiet.escapeQuotes`) and
   texts exchanged (`Quiet.replaceAll`).
-/

namespace ComponentTags

namespace Text

/-- Every `<` is followed by a question mark. -/
def Quiet : Text → Prop
  | [] => True
  | a :: t => (a = '<' → t.head? = some '?') ∧ Quiet t

instance decidableQuiet : (t : Text) → Decidable (Quiet t)
  | [] => isTrue trivial
  | a :: t =>
    have := decidableQuiet t
    inferInstanceAs (Decidable ((a = '<' → t.head? = some '?') ∧ Quiet t))

variable {s t u v : Text} {a : Char}

theorem quiet_of_not_mem (h : '<' ∉ t) : Quiet t := by
  induction t with
  | nil => trivial
  | cons a t ih =>
    rw [List.mem_cons, not_or] at h
    exact ⟨fun e => absurd e.symm h.1, ih h.2⟩

theorem Quiet.append (hu : Quiet u) (hv : Quiet v) : Quiet (u ++ v) := by
  induction u with
  | nil => exact hv
  | cons a u ih =>
    refine ⟨fun e => ?_, ih hu.2⟩
    have h := hu.1 e
    show (u ++ v).head? = some '?'
    rw [List.head?_append, h]
    rfl

/-- The end of a quiet text can be exchanged, if a question mark at its front stays there. -/
theorem Quiet.exchange (h : Quiet (u ++ v)) (ht : Quiet t)
    (hhead : v.head? = some '?' → t.head? = some '?') : Quiet (u ++ t) := by
  induction u with
  | nil => exact ht
  | cons a u ih =>
    refine ⟨fun e => ?_, ih h.2⟩
    have h₁ := h.1 e
    cases u with
    | nil => exact hhead h₁
    | cons b u => exact h₁

theorem Quiet.of_suffix (h : Quiet t) (hs : s <:+ t) : Quiet s := by
  obtain ⟨u, rfl⟩ := hs
  induction u with
  | nil => exact h
  | cons a u ih => exact ih h.2

theorem Quiet.left (h : Quiet (u ++ v)) (hv : v.head? ≠ some '?') : Quiet u := by
  have := h.exchange (t := []) trivial fun e => absurd e hv
  rwa [List.append_nil] at this

/-- A quiet text stays quiet up to a character other than `<`. -/
theorem Quiet.of_append_cons (h : Quiet (u ++ a :: v)) (ha : a ≠ '<') : Quiet (u ++ [a]) :=
  h.exchange ⟨fun e => absurd e ha, trivial⟩ fun e => e

theorem Quiet.stripBlanks (h : Quiet t) : Quiet (stripBlanks t) := by
  have hd : Quiet (t.dropWhile isBlank) := h.of_suffix (List.dropWhile_suffix isBlank)
  have hsplit : ∀ s : Text, s = trimEnd isBlank s ++ (s.reverse.takeWhile isBlank).reverse := by
    intro s
    rw [trimEnd, ← List.reverse_append, List.takeWhile_append_dropWhile, List.reverse_reverse]
  rw [hsplit (t.dropWhile isBlank)] at hd
  refine hd.left fun e => ?_
  have hm := List.mem_reverse.1 (List.mem_of_mem_head? (Option.mem_def.2 e))
  exact absurd (of_mem_takeWhile hm) (by decide)

/-! ## Replacing -/

section Search

variable {α : Type} {hit : Cursor → Option (α × Nat)} {f : α → Text} {c : Cursor}

theorem Quiet.expand
    (h : ∀ (d : Cursor) (item : α) (n : Nat), Quiet d.rest → hit d = some (item, n) →
      Quiet (f item) ∧ d.rest.head? ≠ some '?') (hc : Quiet c.rest) :
    Quiet (Piece.expand f (c.pieces hit)) := by
  -- A question mark is no part of what is found, and so stays behind its `<`.
  suffices hboth : Quiet c.rest → Quiet (Piece.expand f (c.pieces hit)) ∧
      (c.rest.head? = some '?' → (Piece.expand f (c.pieces hit)).head? = some '?') from
    (hboth hc).1
  clear hc
  induction c using Cursor.pieces_induction hit with
  | nil c hr =>
    rw [Cursor.pieces_nil hr, hr]
    exact fun _ => ⟨trivial, fun e => e⟩
  | plain c a rest hr hh ih =>
    intro hc
    rw [hr] at hc
    rw [Cursor.pieces_plain hr hh, Piece.expand, hr]
    have hn : c.next.rest = rest := by simp [Cursor.rest_next, hr]
    rw [hn] at ih
    obtain ⟨h₁, h₂⟩ := ih hc.2
    exact ⟨⟨fun e => h₂ (hc.1 e), h₁⟩, fun e => e⟩
  | found c item n hr hh ih =>
    intro hc
    rw [Cursor.pieces_of_hit hr hh, Piece.expand]
    obtain ⟨h₁, h₂⟩ := h c item n hc hh
    have hrest := hc.of_suffix (Cursor.suffix_rest_next_advance c (n - 1))
    exact ⟨h₁.append (ih hrest).1, fun e => absurd e h₂⟩

end Search

theorem Quiet.replaceAll {new : Text} (ha : a ≠ '?') (hnew : Quiet new) (ht : Quiet t) :
    Quiet (replaceAll (a :: s) new t) := by
  refine Quiet.expand (fun d _ n _ hd => ⟨hnew, ?_⟩) ht
  unfold literal at hd
  split at hd
  · next hp =>
    obtain ⟨rest, hrest⟩ := List.isPrefixOf_iff_prefix.1 hp
    rw [← hrest]
    simpa using ha
  · simp at hd

theorem exists_eq_cons_of_code? {c : Cursor} {block : Text} {n : Nat}
    (h : Segment.code? c = some (block, n)) :
    (∃ t, block = '<' :: t) ∧ c.rest = block ++ (c.next.advance (n - 1)).rest := by
  unfold Segment.code? at h
  split at h
  · simp at h
  · next k hk =>
    obtain ⟨t, ht⟩ : ∃ t, c.rest = '<' :: t := by
      unfold Segment.openingLength? at hk
      split at hk
      · next hr => exact ⟨_, hr⟩
      · next hr => exact ⟨_, hr⟩
      · simp at hk
    have hk₁ : 1 ≤ k := by
      unfold Segment.openingLength? at hk
      split at hk
      · simp at hk
        omega
      · split at hk
        · simp at hk
          omega
        · split at hk
          · simp at hk
            omega
          · simp at hk
      · simp at hk
    simp only [Option.some.injEq, Prod.mk.injEq] at h
    obtain ⟨rfl, rfl⟩ := h
    obtain ⟨m, hm⟩ : ∃ m, k + Segment.codeLength none (c.rest.drop k) = m + 1 :=
      ⟨k + Segment.codeLength none (c.rest.drop k) - 1, by omega⟩
    rw [hm]
    refine ⟨⟨t.take m, by rw [ht]; rfl⟩, ?_⟩
    rw [Cursor.rest_advance, Cursor.rest_next, List.drop_drop, Nat.add_sub_cancel, Nat.add_comm 1,
      List.take_append_drop]

theorem Quiet.escapeQuotes (ht : Quiet t) : Quiet (Segment.escapeQuotes t) := by
  rw [Segment.escapeQuotes, Segment.all, Segment.flatMap_escaped_ofPieces]
  suffices hboth : ∀ c : Cursor, Quiet c.rest →
      Quiet ((c.pieces Segment.code?).flatMap Segment.escapedPiece) ∧
        (c.rest.head? = some '?' →
          ((c.pieces Segment.code?).flatMap Segment.escapedPiece).head? = some '?') from
    (hboth (Cursor.start t) ht).1
  intro c
  induction c using Cursor.pieces_induction Segment.code? with
  | nil c hr =>
    rw [Cursor.pieces_nil hr, hr]
    exact fun _ => ⟨trivial, fun e => e⟩
  | plain c a rest hr hh ih =>
    intro hc
    rw [hr] at hc
    rw [Cursor.pieces_plain hr hh, List.flatMap_cons, hr]
    have hn : c.next.rest = rest := by simp [Cursor.rest_next, hr]
    rw [hn] at ih
    obtain ⟨h₁, h₂⟩ := ih hc.2
    by_cases ha : a = '\x27'
    · subst ha
      exact ⟨⟨by simp, by simp, h₁⟩, by simp⟩
    · have hp : Segment.escapedPiece (.plain a) = [a] := by
        simp [Segment.escapedPiece, replaceChar, ha]
      rw [hp]
      exact ⟨⟨fun e => h₂ (hc.1 e), h₁⟩, fun e => e⟩
  | found c block n hr hh ih =>
    intro hc
    obtain ⟨⟨t, rfl⟩, hrest⟩ := exists_eq_cons_of_code? hh
    rw [Cursor.pieces_of_hit hr hh, List.flatMap_cons, hrest]
    rw [hrest] at hc
    obtain ⟨h₁, h₂⟩ := ih (hc.of_suffix (List.suffix_append _ _))
    exact ⟨hc.exchange h₁ h₂, fun e => absurd e (by simp)⟩

/-! ## Echos -/

theorem exists_eq_append_of_indexOf? {mark : Text} {n : Nat} (h : indexOf? mark t = some n) :
    ∃ u v, t = u ++ mark ++ v ∧ u.length = n := by
  induction t generalizing n with
  | nil =>
    rw [indexOf?] at h
    split at h
    · next hm =>
      refine ⟨[], [], ?_, by simpa using h⟩
      simpa using hm
    · simp at h
  | cons a t ih =>
    rw [indexOf?] at h
    split at h
    · next hp =>
      obtain ⟨v, hv⟩ := List.isPrefixOf_iff_prefix.1 hp
      exact ⟨[], v, by simp [hv], by simpa using h⟩
    · obtain ⟨m, hm, rfl⟩ := Option.map_eq_some_iff.1 h
      obtain ⟨u, v, rfl, rfl⟩ := ih hm
      exact ⟨a :: u, v, by simp, rfl⟩

end Text

namespace Echo

open Text

variable {kind : Echo} {kept : Bool} {text body : Text} {n : Nat} {w : Written}

/-- The body of an echo is what stands before its closing, without the blanks around it. -/
theorem exists_eq_append_of_body? (h : kind.body? text = some (body, n)) :
    ∃ u v, text = u ++ kind.closing ++ v ∧ n = u.length + kind.closing.length ∧
      body = stripBlanks u := by
  obtain ⟨inner, h₁, h₁', -⟩ := exists_eq_takeWhile_append isBlank text
  have hblank : ∀ x ∈ text.takeWhile isBlank, isBlank x = true := fun x hx => of_mem_takeWhile hx
  have hstrip : ∀ t : Text, stripBlanks (text.takeWhile isBlank ++ t) = stripBlanks t := by
    intro t
    rw [stripBlanks, trim, List.dropWhile_append_of_pos hblank]
    rfl
  unfold body? at h
  simp only [h₁'] at h
  split at h
  · next m hm =>
    obtain ⟨u, v, hu, rfl⟩ := exists_eq_append_of_indexOf? hm
    cases inner with
    | nil =>
      have hc : kind.closing = [] := by
        simp only [List.drop_nil, List.nil_eq, List.append_eq_nil_iff] at hu
        exact hu.1.2
      cases kind <;> simp [closing] at hc
    | cons a r =>
      obtain rfl : r = u ++ kind.closing ++ v := hu
      simp only [Option.some.injEq, Prod.mk.injEq] at h
      refine ⟨text.takeWhile isBlank ++ a :: u, v, ?_, ?_, ?_⟩
      · rw [List.append_assoc, List.append_assoc, List.cons_append, ← List.append_assoc u, ← h₁]
      · rw [← h.2]
        simp
        omega
      · rw [hstrip, ← h.1, List.take_succ_cons, List.append_assoc, List.take_left]
  · split at h
    · next hc =>
      obtain ⟨v, hv⟩ := List.isPrefixOf_iff_prefix.1 hc.2
      simp only [Option.some.injEq, Prod.mk.injEq] at h
      refine ⟨text.takeWhile isBlank, v, ?_, h.2.symm, ?_⟩
      · rw [List.append_assoc, hv, ← h₁]
      · have := hstrip []
        rw [List.append_nil] at this
        rw [this, ← h.1]
        rfl
    · simp at h

theorem exists_eq_append_of_writtenAfter? (h : kind.writtenAfter? kept text = some (w, n)) :
    ∃ u v, text = kind.opening ++ u ++ kind.closing ++ v ∧ w.kept = kept ∧
      w.whole = kind.opening ++ u ++ kind.closing ∧ w.body = stripBlanks u ∧
      w.lineEnd = lineEnd v ∧ n = w.whole.length + w.lineEnd.length := by
  unfold writtenAfter? at h
  split at h
  · simp at h
  · next inner hi =>
    rw [List.isPrefixOf?_eq_some_iff_append_eq] at hi
    split at h
    · simp at h
    · next body k hb =>
      obtain ⟨u, v, rfl, rfl, rfl⟩ := exists_eq_append_of_body? hb
      simp only [Option.some.injEq, Prod.mk.injEq] at h
      obtain ⟨rfl, rfl⟩ := h
      have hlen : u.length + kind.closing.length = (u ++ kind.closing).length := by simp
      have ht : text = kind.opening ++ u ++ kind.closing ++ v := by simp [← hi]
      have hwhole : text.take (kind.opening.length + (u.length + kind.closing.length)) =
          kind.opening ++ u ++ kind.closing := by
        rw [ht, hlen, ← List.length_append, ← List.append_assoc, List.take_left]
      refine ⟨u, v, ht, rfl, hwhole, rfl, ?_, ?_⟩
      · show lineEnd ((u ++ kind.closing ++ v).drop (u.length + kind.closing.length)) = _
        rw [hlen, List.drop_left]
      · simp only [hwhole, List.length_append]
        omega

theorem exists_eq_lineEnd_append (t : Text) : ∃ v, t = lineEnd t ++ v := by
  unfold lineEnd
  split
  · exact ⟨_, rfl⟩
  · exact ⟨_, rfl⟩
  · exact ⟨t, rfl⟩

theorem quiet_lineEnd (text : Text) : Quiet (lineEnd text) := by
  unfold lineEnd
  split
  · decide
  · decide
  · trivial

theorem quiet_expression (h : Quiet body) : Quiet (expression body) := by
  unfold expression
  split
  · next hl =>
    obtain ⟨s, rfl⟩ := List.getLast?_eq_some_iff.1 hl
    rw [List.dropLast_concat]
    exact h.left (by simp)
  · exact h

theorem quiet_compiled (ht : Quiet text) (h : kind.writtenAfter? kept text = some (w, n)) :
    Quiet (kind.compiled w) := by
  obtain ⟨u, v, rfl, hk, hw, hb, hl, -⟩ := exists_eq_append_of_writtenAfter? h
  have hline : Quiet w.lineEnd := hl ▸ quiet_lineEnd v
  unfold compiled
  split
  · -- The echo ends with a brace.
    have hwhole : Quiet w.whole := by
      obtain ⟨t, ht'⟩ : ∃ t, kind.closing = t ++ ['}'] := by
        cases kind
        · exact ⟨['!', '!'], rfl⟩
        · exact ⟨['}', '}'], rfl⟩
        · exact ⟨['}'], rfl⟩
      rw [hw, ht', ← List.append_assoc]
      refine Quiet.of_append_cons (v := v) ?_ (by decide)
      simpa [ht'] using ht
    refine Quiet.append (Quiet.append ?_ hwhole) hline
    split <;> decide
  · have hbody : Quiet w.body := by
      rw [hb]
      apply Quiet.stripBlanks
      rw [List.append_assoc] at ht
      have hclose : (kind.closing ++ v).head? ≠ some '?' := by cases kind <;> simp [closing]
      exact (ht.left hclose).of_suffix (List.suffix_append _ _)
    have hexpr := quiet_expression hbody
    refine Quiet.append (Quiet.append ?_ hline) hline
    cases kind
    all_goals exact Quiet.append (Quiet.append (by decide) hexpr) (by decide)

theorem quiet_compileForm (ht : Quiet text) : Quiet (kind.compileForm text) := by
  refine Quiet.expand (fun d w n hd h => ?_) ht
  have hopen : ∀ {s : Text} {w : Written} {n : Nat} {kept : Bool},
      kind.writtenAfter? kept s = some (w, n) → s.head? = some '{' := by
    intro s w n kept hs
    obtain ⟨u, v, rfl, -⟩ := exists_eq_append_of_writtenAfter? hs
    cases kind <;> rfl
  unfold written? at h
  split at h
  · next rest hr =>
    obtain ⟨⟨w', k⟩, hw', he⟩ := Option.map_eq_some_iff.1 h
    obtain ⟨rfl, -⟩ := Prod.mk.inj he
    rw [hr] at hd ⊢
    exact ⟨quiet_compiled hd.2 hw', by simp⟩
  · exact ⟨quiet_compiled hd h, by simp [hopen h]⟩

theorem quiet_compile (ht : Quiet text) : Quiet (compile text) :=
  quiet_compileForm (quiet_compileForm (quiet_compileForm ht))

end Echo

/-- A literal value without tags is compiled to an expression without tags. -/
theorem AttributeReader.quiet_literalValue {value : Text} (h : Text.Quiet value) :
    Text.Quiet (literalValue Echo.compile value) := by
  have h₁ := (Echo.quiet_compile h).escapeQuotes
  refine Text.Quiet.append (Text.Quiet.append (by decide) ?_) (by decide)
  exact Text.Quiet.replaceAll (by decide) (by decide)
    (Text.Quiet.replaceAll (by decide) (by decide) h₁)

end ComponentTags
