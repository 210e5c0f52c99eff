import ComponentTags.Proofs.Quiet

/-!
# Echos part by part

A template of echos and of texts without opening braces and at signs is compiled part by part,
although three passes go over all of it and each of them sees the echos of the other forms, or what
has become of them.

1. A pass finds an echo of its form where it is written (`writtenAfter?_append`). No form begins in
   a text, in a statement or in an echo of another form (`not_opening_prefix_of_not_mem`,
   `Spelled.not_opening_prefix_whole`), so a pass finds nothing there (`misses_written?`).
2. So a pass compiles the echos that are due to it and leaves the other parts as they are
   (`compileForm_current`). An escaped echo that is kept is due to the regular pass: its own pass
   leaves the at sign there.
-/

namespace ComponentTags.Echo

open Text

/-! ## Parts of a template -/

/-- A body between blanks. It has no blank at either end and no closing brace. -/
structure IsBody (before body after : Text) : Prop where
  before_blank : ∀ x ∈ before, isBlank x = true
  after_blank : ∀ x ∈ after, isBlank x = true
  ne_nil : body ≠ []
  stops : Stops isBlank body
  ends : ∀ x ∈ body.getLast?, isBlank x = false
  no_brace : '}' ∉ body

instance (before body after : Text) : Decidable (IsBody before body after) :=
  have := List.decidableBAll (fun x => isBlank x = true) before
  have := List.decidableBAll (fun x => isBlank x = true) after
  have : Decidable (Stops isBlank body) := Option.decidableForallMem _
  have := Option.decidableForallMem (p := fun x => isBlank x = false) body.getLast?
  decidable_of_iff ((∀ x ∈ before, isBlank x = true) ∧ (∀ x ∈ after, isBlank x = true) ∧
      body ≠ [] ∧ Stops isBlank body ∧ (∀ x ∈ body.getLast?, isBlank x = false) ∧ '}' ∉ body)
    ⟨fun ⟨h₁, h₂, h₃, h₄, h₅, h₆⟩ => ⟨h₁, h₂, h₃, h₄, h₅, h₆⟩,
      fun ⟨h₁, h₂, h₃, h₄, h₅, h₆⟩ => ⟨h₁, h₂, h₃, h₄, h₅, h₆⟩⟩

theorem IsBody.brace {before body after : Text} (h : IsBody before body after) :
    IsBody [] ('{' :: (before ++ body)) after where
  before_blank := by simp
  after_blank := h.after_blank
  ne_nil := by simp
  stops := stops_cons.2 (by decide)
  ends := by
    intro x hx
    refine h.ends x ?_
    rw [← List.cons_append, List.getLast?_append] at hx
    simpa [List.getLast?_eq_some_getLast h.ne_nil] using hx
  no_brace := by
    rw [List.mem_cons, List.mem_append]
    rintro (hm | hm | hm)
    · exact absurd hm (by decide)
    · exact absurd (h.before_blank _ hm) (by decide)
    · exact h.no_brace hm

/-- An echo in a template, with a blank at least before its body. -/
structure Spelled where
  kind : Echo
  /-- Whether an at sign stands before it. -/
  kept : Bool
  before : Text
  body : Text
  after : Text
  isBody : IsBody before body after
  before_ne_nil : before ≠ []
  no_brace : '{' ∉ body

/-- A stretch of a template. -/
inductive Part where
  | text (t : Text) (plain : '{' ∉ t ∧ '@' ∉ t)
  | echo (e : Spelled)

/-- The end of line at the front of what follows an echo. -/
def newline (v : Text) : Text :=
  if v.take 1 = ['\n'] then ['\n'] else if v.take 2 = ['\r', '\n'] then ['\r', '\n'] else []

namespace Spelled

/-- The echo without its at sign. -/
def whole (e : Spelled) : Text :=
  e.kind.opening ++ (e.before ++ (e.body ++ (e.after ++ e.kind.closing)))

def source (e : Spelled) : Text :=
  (if e.kept then ['@'] else []) ++ e.whole

/-- The body without one semicolon at its end. -/
def printed (e : Spelled) : Text :=
  if e.body.getLast? = some ';' then e.body.take (e.body.length - 1) else e.body

/-- What the echo stands for before `v`: itself if it is kept, and otherwise a statement with the
end of line behind it, which comes once more in `v`. -/
def output (e : Spelled) (v : Text) : Text :=
  if e.kept then e.whole
  else
    match e.kind with
    | raw => "<?php echo ".toList ++ e.printed ++ "; ?>".toList ++ newline v
    | escaped => "<?php echo e(".toList ++ e.printed ++ "); ?>".toList ++ newline v
    | regular => "<?php echo e(".toList ++ e.printed ++ "); ?>".toList ++ newline v

/-- The pass that the echo is due to. -/
def pass (e : Spelled) : Echo :=
  if e.kept = true ∧ e.kind = escaped then regular else e.kind

/-- The echo before `v`, when the passes `done` have been made. -/
def current (done : List Echo) (e : Spelled) (v : Text) : Text :=
  if e.pass ∈ done then e.output v else e.source

end Spelled

namespace Part

def source : List Part → Text
  | [] => []
  | text t _ :: ps => t ++ source ps
  | echo e :: ps => e.source ++ source ps

/-- What the parts stand for, one after the other. -/
def output : List Part → Text
  | [] => []
  | text t _ :: ps => t ++ output ps
  | echo e :: ps => e.output (source ps) ++ output ps

/-- The template when the passes `done` have been made. -/
def current (done : List Echo) : List Part → Text
  | [] => []
  | text t _ :: ps => t ++ current done ps
  | echo e :: ps => e.current done (source ps) ++ current done ps

theorem current_nil (ps : List Part) : current [] ps = source ps := by
  induction ps with
  | nil => rfl
  | cons p ps ih =>
    cases p with
    | text t _ => rw [current, source, ih]
    | echo e => simp [current, source, Spelled.current, ih]

theorem current_all (ps : List Part) : current [regular, escaped, raw] ps = output ps := by
  induction ps with
  | nil => rfl
  | cons p ps ih =>
    cases p with
    | text t _ => rw [current, output, ih]
    | echo e =>
      have hpass : e.pass ∈ [regular, escaped, raw] := by cases e.pass <;> decide
      rw [current, output, ih, Spelled.current, if_pos hpass]

end Part

/-! ## Ends of lines -/

theorem lineEnd_eq_newline (v : Text) : lineEnd v = newline v := by
  unfold lineEnd newline
  split
  · simp
  · simp
  · next h₁ h₂ =>
    rcases v with _ | ⟨a, _ | ⟨b, v⟩⟩
    · simp
    · have ha : a ≠ '\n' := fun h => h₁ [] (h ▸ rfl)
      simp [ha]
    · have ha : a ≠ '\n' := fun h => h₁ (b :: v) (h ▸ rfl)
      have hab : a = '\r' → b ≠ '\n' := fun h h' => h₂ v (h ▸ h' ▸ rfl)
      simpa [ha] using hab

theorem newline_cons (a : Char) (v : Text) :
    newline (a :: v) =
      if a = '\n' then ['\n'] else if a = '\r' ∧ newline v = ['\n'] then ['\r', '\n'] else [] := by
  have hv : newline v = ['\n'] ↔ v.take 1 = ['\n'] := by
    unfold newline
    split_ifs with h₁ h₂ <;> simp [h₁]
  simp only [hv]
  simp [newline]

theorem newline_append_congr {v w : Text} (h : newline v = newline w) (u : Text) :
    newline (u ++ v) = newline (u ++ w) := by
  induction u with
  | nil => exact h
  | cons a u ih => rw [List.cons_append, List.cons_append, newline_cons, newline_cons, ih]

theorem newline_cons_of_ne {a : Char} (hn : a ≠ '\n') (hr : a ≠ '\r') (v : Text) :
    newline (a :: v) = [] := by
  rw [newline_cons, if_neg hn, if_neg fun h => hr h.1]

namespace Spelled

variable (e : Spelled)

theorem exists_whole_eq : ∃ u, e.whole = '{' :: u := by
  unfold whole
  cases e.kind <;> exact ⟨_, rfl⟩

theorem newline_current (done : List Echo) (src v : Text) :
    newline (e.current done src ++ v) = [] := by
  obtain ⟨u, hu⟩ := e.exists_whole_eq
  unfold current output source
  rw [hu]
  split_ifs
  · exact newline_cons_of_ne (by decide) (by decide) _
  · cases e.kind <;> exact newline_cons_of_ne (a := '<') (by decide) (by decide) _
  · exact newline_cons_of_ne (a := '@') (by decide) (by decide) _
  · exact newline_cons_of_ne (by decide) (by decide) _

end Spelled

theorem Part.newline_current (done : List Echo) (ps : List Part) :
    newline (current done ps) = newline (source ps) := by
  induction ps with
  | nil => rfl
  | cons p ps ih =>
    cases p with
    | text t _ => exact newline_append_congr ih t
    | echo e =>
      have hsource : e.source = e.current [] (source ps) := by simp [Spelled.current]
      rw [current, source, e.newline_current, hsource, e.newline_current]

/-! ## Where a pass finds nothing -/

variable {k : Echo} {c d : Cursor} {u v : Text}

theorem written?_eq_none (h : ¬ k.opening <+: d.rest) (hat : ¬ '@' :: k.opening <+: d.rest) :
    k.written? d = none := by
  have hafter : ∀ kept text, ¬ k.opening <+: text → k.writtenAfter? kept text = none := by
    intro kept text ht
    have hnone : k.opening.isPrefixOf? text = none := by
      rw [Option.eq_none_iff_forall_ne_some]
      intro inner hi
      rw [List.isPrefixOf?_eq_some_iff_append_eq] at hi
      exact ht ⟨inner, hi⟩
    simp only [writtenAfter?, hnone]
  unfold written?
  split
  · next rest hr =>
    rw [hr, List.cons_prefix_cons, not_and] at hat
    rw [hafter true rest (hat rfl)]
    rfl
  · exact hafter false d.rest h

theorem misses_written? (hr : c.rest = u ++ v)
    (ho : ∀ s, s <:+ u → s ≠ [] → ¬ k.opening <+: s ++ v) (hl : u.getLast? ≠ some '@') :
    c.Misses k.written? u := by
  refine Cursor.misses_of_suffix hr fun s d hs hne hd _ => ?_
  refine written?_eq_none (hd ▸ ho s hs hne) fun hp => ?_
  obtain ⟨b, s, rfl⟩ := List.exists_cons_of_ne_nil hne
  rw [hd, List.cons_append] at hp
  obtain ⟨rfl, hopening⟩ := List.cons_prefix_cons.1 hp
  by_cases hnil : s = []
  · obtain ⟨t, rfl⟩ := hs
    exact hl (by simp [hnil])
  · exact ho s ((List.suffix_cons _ s).trans hs) hnil hopening

theorem exists_opening_eq (k : Echo) : ∃ m, k.opening = '{' :: m := by
  cases k <;> exact ⟨_, rfl⟩

/-- No opening begins in another one, if neither a brace nor an exclamation mark follows. -/
theorem not_opening_prefix_of_suffix {j : Echo} {w t : Text} {b : Char} (hjk : j ≠ k)
    (hregular : k = regular → j ≠ escaped) (hb₁ : b ≠ '{') (hb₂ : b ≠ '!')
    (hw : w <:+ j.opening) (hne : w ≠ []) : ¬ k.opening <+: w ++ b :: t := by
  cases j <;> cases k <;>
    simp only [opening, List.suffix_cons_iff, List.suffix_nil, hne, or_false, ne_eq,
      not_true_eq_false, reduceCtorEq, forall_const] at hw hjk hregular ⊢
  all_goals rcases hw with rfl | rfl | rfl <;> simp [hb₁.symm, hb₂.symm]

theorem not_opening_prefix_of_not_mem (hu : '{' ∉ u) (hne : u ≠ []) : ¬ k.opening <+: u ++ v := by
  obtain ⟨m, hm⟩ := exists_opening_eq k
  obtain ⟨b, u, rfl⟩ := List.exists_cons_of_ne_nil hne
  rw [hm, List.cons_append]
  intro hp
  obtain ⟨rfl, -⟩ := List.cons_prefix_cons.1 hp
  exact hu (by simp)

theorem misses_of_not_mem (hr : c.rest = u ++ v) (hb : '{' ∉ u) (hl : u.getLast? ≠ some '@') :
    c.Misses k.written? u :=
  misses_written? hr (fun _ hs => not_opening_prefix_of_not_mem fun h => hb (hs.subset h)) hl

namespace Spelled

theorem ne_of_isBlank {a b : Char} (ha : isBlank a = true) (hb : isBlank b = false) : a ≠ b := by
  rintro rfl
  simp [ha] at hb

/-- Behind its opening an echo goes on with a blank and has no other opening brace. -/
theorem exists_inner (e : Spelled) :
    ∃ b inner, e.whole = e.kind.opening ++ b :: inner ∧ isBlank b = true ∧ '{' ∉ b :: inner := by
  have hrun : IsRun isBlank e.before := ⟨e.before_ne_nil, e.isBody.before_blank⟩
  obtain ⟨b, before, hbefore, hb⟩ := hrun.exists_cons
  refine ⟨b, before ++ (e.body ++ (e.after ++ e.kind.closing)), by simp [whole, hbefore], hb, ?_⟩
  have hblank : ∀ t : Text, (∀ x ∈ t, isBlank x = true) → '{' ∉ t :=
    fun t ht hm => ne_of_isBlank (ht _ hm) (by decide) rfl
  have hclosing : '{' ∉ e.kind.closing := by cases e.kind <;> decide
  have hfront := hblank _ hrun.2
  rw [hbefore] at hfront
  rw [← List.cons_append, List.mem_append, List.mem_append, List.mem_append]
  rintro (h | h | h | h)
  · exact hfront h
  · exact e.no_brace h
  · exact hblank _ e.isBody.after_blank h
  · exact hclosing h

/-- No other form begins in an echo, except for the regular one in an escaped echo. -/
theorem not_opening_prefix_whole (e : Spelled) {s : Text} (hk : e.kind ≠ k)
    (hregular : k = regular → e.kind ≠ escaped) (hs : s <:+ e.whole) (hne : s ≠ []) :
    ¬ k.opening <+: s ++ v := by
  obtain ⟨b, inner, hwhole, hb, hbrace⟩ := e.exists_inner
  have hinner : ∀ s, s <:+ b :: inner → s ≠ [] → ¬ k.opening <+: s ++ v :=
    fun s hs hne => not_opening_prefix_of_not_mem (fun h => hbrace (hs.subset h)) hne
  rw [hwhole] at hs
  obtain ⟨t, ht⟩ := hs
  rcases List.append_eq_append_iff.1 ht with ⟨w, hw, rfl⟩ | ⟨w, rfl, hw⟩
  · by_cases hnil : w = []
    · subst hnil
      exact hinner _ List.suffix_rfl hne
    · rw [List.append_assoc]
      exact not_opening_prefix_of_suffix hk hregular (ne_of_isBlank hb (by decide))
        (ne_of_isBlank hb (by decide)) ⟨t, hw.symm⟩ hnil
  · exact hinner s ⟨w, hw.symm⟩ hne

theorem not_opening_prefix_source (e : Spelled) {s : Text} (hk : e.kind ≠ k)
    (hregular : k = regular → e.kind ≠ escaped) (hs : s <:+ e.source) (hne : s ≠ []) :
    ¬ k.opening <+: s ++ v := by
  unfold source at hs
  split at hs
  · rcases List.suffix_cons_iff.1 hs with rfl | hs
    · obtain ⟨m, hm⟩ := exists_opening_eq k
      simp [hm, List.cons_prefix_cons]
    · exact e.not_opening_prefix_whole hk hregular hs hne
  · exact e.not_opening_prefix_whole hk hregular hs hne

theorem getLast?_whole (e : Spelled) : e.whole.getLast? = some '}' := by
  unfold whole
  cases e.kind <;> simp [closing]

end Spelled

/-! ## What a pass finds -/

section Body

variable {before body after : Text}

theorem body?_append (h : IsBody before body after) (kind : Echo) (v : Text) :
    kind.body? (before ++ (body ++ (after ++ (kind.closing ++ v)))) =
      some (body, (before ++ (body ++ (after ++ kind.closing))).length) := by
  obtain ⟨a, r, rfl⟩ := List.exists_cons_of_ne_nil h.ne_nil
  have ha : isBlank a = false := stops_cons.1 h.stops
  show kind.body? (before ++ a :: (r ++ (after ++ (kind.closing ++ v)))) =
    some (a :: r, (before ++ a :: (r ++ (after ++ kind.closing))).length)
  have hblanks : (before ++ a :: (r ++ (after ++ (kind.closing ++ v)))).takeWhile isBlank =
      before :=
    takeWhile_append h.before_blank (stops_cons.2 ha)
  obtain ⟨mark, tail, hclosing, hmark⟩ :
      ∃ mark tail, kind.closing = mark ++ '}' :: tail ∧ '}' ∉ mark := by
    cases kind with
    | raw => exact ⟨['!', '!'], [], rfl, by decide⟩
    | escaped => exact ⟨[], ['}', '}'], rfl, by decide⟩
    | regular => exact ⟨[], ['}'], rfl, by decide⟩
  have hfirst : '}' ∉ r ++ after := by
    rw [List.mem_append]
    rintro (hm | hm)
    · exact h.no_brace (List.mem_cons_of_mem a hm)
    · exact absurd (h.after_blank _ hm) (by decide)
  have hindex : indexOf? kind.closing (r ++ (after ++ (kind.closing ++ v))) =
      some (r ++ after).length := by
    have hi : indexOf? (mark ++ '}' :: tail) (r ++ after ++ (mark ++ '}' :: tail) ++ v) = _ :=
      indexOf?_append_of_not_mem hfirst hmark v
    rw [← hclosing] at hi
    simpa using hi
  have hstrip : stripBlanks (a :: (r ++ after)) = a :: r := by
    have ht := trimEnd_append h.after_blank h.ends
    rw [stripBlanks, trim, List.dropWhile_cons_of_neg (by simp [ha])]
    exact ht
  have htake : (a :: (r ++ (after ++ (kind.closing ++ v)))).take ((r ++ after).length + 1) =
      a :: (r ++ after) := by
    rw [List.take_succ_cons, ← List.append_assoc r, List.take_left]
  simp only [body?, hblanks, List.drop_left, List.drop_succ_cons, List.drop_zero, hindex, htake,
    hstrip, Option.some.injEq, Prod.mk.injEq, true_and]
  simp only [List.length_append, List.length_cons]
  omega

/-- What an echo is taken as, and how far, with the end of line behind it. -/
theorem writtenAfter?_append (h : IsBody before body after) (kind : Echo) (kept : Bool) (v : Text) :
    kind.writtenAfter? kept (kind.opening ++ (before ++ (body ++ (after ++ kind.closing))) ++ v) =
      some (⟨kept, kind.opening ++ (before ++ (body ++ (after ++ kind.closing))), body, lineEnd v⟩,
        (kind.opening ++ (before ++ (body ++ (after ++ kind.closing)))).length +
          (lineEnd v).length) := by
  have hbody := body?_append h kind v
  have hassoc : before ++ (body ++ (after ++ (kind.closing ++ v))) =
      before ++ (body ++ (after ++ kind.closing)) ++ v := by
    simp
  rw [hassoc] at hbody
  generalize before ++ (body ++ (after ++ kind.closing)) = inner at hbody ⊢
  have hopening : kind.opening.isPrefixOf? (kind.opening ++ inner ++ v) = some (inner ++ v) := by
    rw [List.isPrefixOf?_eq_some_iff_append_eq, List.append_assoc]
  simp only [writtenAfter?, hopening, hbody, List.drop_left, Option.some.injEq, Prod.mk.injEq,
    Written.mk.injEq, true_and, and_true]
  rw [← List.length_append]
  exact ⟨List.take_left, rfl⟩

end Body

theorem written?_at {t : Text} (hr : c.rest = '@' :: t) :
    k.written? c = (k.writtenAfter? true t).map fun found => (found.1, found.2 + 1) := by
  simp only [written?, hr]

theorem written?_brace {t : Text} (hr : c.rest = '{' :: t) :
    k.written? c = k.writtenAfter? false c.rest := by
  unfold written?
  rw [hr]
  rfl

/-- An echo is exchanged up to the end of line behind it, which stays once. -/
theorem expand_of_written? {w : Written} (new : Text) (hr : c.rest = u ++ v) (hu : u ≠ [])
    (hh : k.written? c = some (w, u.length + (lineEnd v).length))
    (hw : k.compiled w = new ++ lineEnd v) :
    Piece.expand k.compiled (c.pieces k.written?) =
      new ++ Piece.expand k.compiled ((c.advance u.length).pieces k.written?) := by
  obtain ⟨rest, hv⟩ := exists_eq_lineEnd_append v
  have hline : ∀ x ∈ lineEnd v, x ≠ '{' ∧ x ≠ '@' := by
    unfold lineEnd
    split <;> simp
  have hr' : c.rest = (u ++ lineEnd v) ++ rest := by rw [hr, List.append_assoc, ← hv]
  have hbehind : (c.advance u.length).rest = lineEnd v ++ rest := by
    rw [Cursor.rest_advance_append hr, ← hv]
  have hmisses : (c.advance u.length).Misses k.written? (lineEnd v) :=
    misses_of_not_mem hbehind (fun h => (hline _ h).1 rfl)
      fun h => (hline _ (List.mem_of_getLast? h)).2 rfl
  rw [Cursor.expand_pieces_of_hit k.compiled hr' (by simp [hu]) (by rw [hh, List.length_append]),
    Cursor.expand_pieces_of_misses k.compiled hbehind hmisses, hw, List.append_assoc,
    Cursor.advance_advance, List.length_append]

/-! ## A pass -/

namespace Spelled

variable {e : Spelled} {done : List Echo} {src : Text}

theorem expression_body (e : Spelled) : expression e.body = e.printed := by
  unfold expression printed
  rw [List.dropLast_eq_take]

theorem written?_source (hr : c.rest = e.source ++ v) :
    e.kind.written? c =
      some (⟨e.kept, e.whole, e.body, lineEnd v⟩, e.source.length + (lineEnd v).length) := by
  have hafter := writtenAfter?_append e.isBody e.kind e.kept v
  change e.kind.writtenAfter? e.kept (e.whole ++ v) =
    some (⟨e.kept, e.whole, e.body, lineEnd v⟩, e.whole.length + (lineEnd v).length) at hafter
  unfold source at hr ⊢
  cases hkept : e.kept with
  | true =>
    rw [hkept] at hr hafter
    rw [written?_at (t := e.whole ++ v) hr, hafter, Option.map_some, Nat.add_right_comm]
    rfl
  | false =>
    rw [hkept] at hr hafter
    obtain ⟨t, ht⟩ := e.exists_whole_eq
    have hbrace : c.rest = '{' :: (t ++ v) := by simpa [ht] using hr
    rw [written?_brace hbrace, hr]
    simpa using hafter

/-- What the pass of its form writes for an echo, except for a kept escaped one. -/
theorem compiled_eq (h : ¬ (e.kept = true ∧ e.kind = escaped)) (hv : lineEnd v = newline src) :
    e.kind.compiled ⟨e.kept, e.whole, e.body, lineEnd v⟩ = e.output src ++ lineEnd v := by
  unfold compiled output statement
  rw [expression_body, hv]
  cases hkept : e.kept with
  | true =>
    have hkind : e.kind ≠ escaped := fun hk => h ⟨hkept, hk⟩
    simp [hkind]
  | false => cases e.kind <;> simp

theorem whole_ne_nil (e : Spelled) : e.whole ≠ [] := by
  obtain ⟨t, ht⟩ := e.exists_whole_eq
  simp [ht]

theorem source_ne_nil (e : Spelled) : e.source ≠ [] := by
  simp [source, e.whole_ne_nil]

theorem expand_source_of_ne (hr : c.rest = e.source ++ v) (hk : e.pass ≠ k)
    (hregular : k = regular → e.kind ≠ escaped) :
    Piece.expand k.compiled (c.pieces k.written?) =
      e.source ++ Piece.expand k.compiled ((c.advance e.source.length).pieces k.written?) := by
  by_cases hkind : e.kind = k
  · -- Its own pass keeps the at sign of a kept escaped echo.
    subst hkind
    have hkept : e.kept = true ∧ e.kind = escaped := by
      by_contra h
      exact hk (if_neg h)
    refine expand_of_written? _ hr e.source_ne_nil (written?_source hr) ?_
    simp [compiled, source, hkept]
  · refine Cursor.expand_pieces_of_misses k.compiled hr (misses_written? hr ?_ ?_)
    · exact fun s hs hne => e.not_opening_prefix_source hkind hregular hs hne
    · rw [source, List.getLast?_append, e.getLast?_whole]
      simp

/-- A kept escaped echo loses its at sign as a regular one, which ends before its last brace. -/
theorem expand_source_keptEscaped (hr : c.rest = e.source ++ v) (hkept : e.kept = true)
    (hkind : e.kind = escaped) :
    Piece.expand regular.compiled (c.pieces regular.written?) =
      e.whole ++
        Piece.expand regular.compiled ((c.advance e.source.length).pieces regular.written?) := by
  have hbody := writtenAfter?_append e.isBody.brace regular true ('}' :: v)
  have hwhole : e.whole = regular.opening ++
      ([] ++ ('{' :: (e.before ++ e.body) ++ (e.after ++ regular.closing))) ++ ['}'] := by
    simp [whole, hkind, opening, closing]
  generalize regular.opening ++
    ([] ++ ('{' :: (e.before ++ e.body) ++ (e.after ++ regular.closing))) = u at hbody hwhole
  have hr' : c.rest = ('@' :: u) ++ ('}' :: v) := by
    rw [hr, source, hkept, hwhole]
    simp
  have hh : regular.written? c =
      some (⟨true, u, '{' :: (e.before ++ e.body), lineEnd ('}' :: v)⟩,
        ('@' :: u).length + (lineEnd ('}' :: v)).length) := by
    rw [written?_at (t := u ++ '}' :: v) hr', hbody]
    rfl
  have hfound := expand_of_written? u hr' (by simp) hh (by simp [compiled])
  have hbehind : (c.advance ('@' :: u).length).rest = ['}'] ++ v := Cursor.rest_advance_append hr'
  have hbrace : (c.advance ('@' :: u).length).Misses regular.written? ['}'] :=
    misses_of_not_mem hbehind (by decide) (by decide)
  have hlength : e.source.length = ('@' :: u).length + ['}'].length := by
    simp [source, hkept, hwhole]
  rw [hfound, Cursor.expand_pieces_of_misses regular.compiled hbehind hbrace,
    Cursor.advance_advance, hlength, hwhole, List.append_assoc]

theorem no_brace_output (hkept : e.kept = false) :
    '{' ∉ e.output src ∧ (e.output src).getLast? ≠ some '@' := by
  have hprinted : '{' ∉ e.printed := by
    unfold printed
    split
    · exact fun h => e.no_brace (List.mem_of_mem_take h)
    · exact e.no_brace
  have hline : ∀ x ∈ newline src, x ≠ '{' ∧ x ≠ '@' := by
    unfold newline
    split_ifs <;> simp
  have hstatement : ∀ front back : Text, '{' ∉ front ∧ '{' ∉ back ∧ back.getLast? = some '>' →
      '{' ∉ front ++ e.printed ++ back ++ newline src ∧
        (front ++ e.printed ++ back ++ newline src).getLast? ≠ some '@' := by
    rintro front back ⟨hfront, hback, hlast⟩
    refine ⟨?_, ?_⟩
    · simp only [List.mem_append, hfront, hprinted, hback, or_self, false_or]
      exact fun h => (hline _ h).1 rfl
    · rw [List.getLast?_append, List.getLast?_append, hlast]
      cases hnew : (newline src).getLast? with
      | none => simp
      | some x => simpa using (hline x (List.mem_of_getLast? hnew)).2
  unfold output
  rw [hkept]
  cases e.kind <;> exact hstatement _ _ (by decide)

/-- What is compiled is left as it is by the later passes. -/
theorem expand_output (hr : c.rest = e.output src ++ v) (hk : k ∉ done) (hregular : regular ∉ done)
    (hdone : e.pass ∈ done) :
    Piece.expand k.compiled (c.pieces k.written?) =
      e.output src ++
        Piece.expand k.compiled ((c.advance (e.output src).length).pieces k.written?) := by
  refine Cursor.expand_pieces_of_misses k.compiled hr ?_
  cases hkept : e.kept with
  | true =>
    have hne : ¬ (e.kept = true ∧ e.kind = escaped) := by
      intro h
      rw [pass, if_pos h] at hdone
      exact hregular hdone
    rw [pass, if_neg hne] at hdone
    have hkind : e.kind ≠ k := fun h => hk (h ▸ hdone)
    have hwhole : e.output src = e.whole := if_pos hkept
    rw [hwhole] at hr ⊢
    refine misses_written? hr (fun s hs => ?_) (by simp [e.getLast?_whole])
    exact e.not_opening_prefix_whole hkind (fun _ h => hne ⟨hkept, h⟩) hs
  | false => exact misses_of_not_mem hr (no_brace_output hkept).1 (no_brace_output hkept).2

theorem expand_source (hr : c.rest = e.source ++ v) (hv : lineEnd v = newline src) :
    Piece.expand e.pass.compiled (c.pieces e.pass.written?) =
      e.output src ++
        Piece.expand e.pass.compiled ((c.advance e.source.length).pieces e.pass.written?) := by
  by_cases h : e.kept = true ∧ e.kind = escaped
  · rw [pass, if_pos h, output, if_pos h.1]
    exact expand_source_keptEscaped hr h.1 h.2
  · rw [pass, if_neg h]
    exact expand_of_written? _ hr e.source_ne_nil (written?_source hr) (compiled_eq h hv)

/-- One pass over an echo: it goes on from what the passes before it have left. -/
theorem expand_current (hk : k ∉ done) (hregular : regular ∉ done)
    (hescaped : k = regular → escaped ∈ done) (hv : lineEnd v = newline src)
    (hr : c.rest = e.current done src ++ v) :
    Piece.expand k.compiled (c.pieces k.written?) =
      e.current (k :: done) src ++
        Piece.expand k.compiled ((c.advance (e.current done src).length).pieces k.written?) := by
  by_cases hdone : e.pass ∈ done
  · have hsame : e.current (k :: done) src = e.output src := if_pos (List.mem_cons_of_mem k hdone)
    have hout : e.current done src = e.output src := if_pos hdone
    rw [hout] at hr ⊢
    rw [hsame]
    exact expand_output hr hk hregular hdone
  have hsource : e.current done src = e.source := if_neg hdone
  rw [hsource] at hr ⊢
  by_cases hpass : e.pass = k
  · subst hpass
    have hnew : e.current (e.pass :: done) src = e.output src := if_pos List.mem_cons_self
    rw [hnew]
    exact expand_source hr hv
  · have hnew : e.current (k :: done) src = e.source := if_neg (by simp [hpass, hdone])
    rw [hnew]
    refine expand_source_of_ne hr hpass fun hk hkind => ?_
    cases hkept : e.kept with
    | true => exact hpass ((if_pos ⟨hkept, hkind⟩).trans hk.symm)
    | false =>
      rw [pass, if_neg (by simp [hkept]), hkind] at hdone
      exact hdone (hescaped hk)

end Spelled

/-- **One pass.** The pass of a form compiles the echos that are due to it. -/
theorem compileForm_current {done : List Echo} (hk : k ∉ done) (hregular : regular ∉ done)
    (hescaped : k = regular → escaped ∈ done) (ps : List Part) :
    k.compileForm (Part.current done ps) = Part.current (k :: done) ps := by
  have hcursor : ∀ c : Cursor, c.rest = Part.current done ps →
      Piece.expand k.compiled (c.pieces k.written?) = Part.current (k :: done) ps := by
    induction ps with
    | nil =>
      intro c hr
      rw [Cursor.pieces_nil hr]
      rfl
    | cons p ps ih =>
      intro c hr
      cases p with
      | text t plain =>
        have hmisses : c.Misses k.written? t :=
          misses_of_not_mem hr plain.1 fun h => plain.2 (List.mem_of_getLast? h)
        rw [Cursor.expand_pieces_of_misses k.compiled hr hmisses,
          ih _ (Cursor.rest_advance_append hr)]
        rfl
      | echo e =>
        have hline : lineEnd (Part.current done ps) = newline (Part.source ps) := by
          rw [lineEnd_eq_newline, Part.newline_current]
        rw [e.expand_current hk hregular hescaped hline hr, ih _ (Cursor.rest_advance_append hr)]
        rfl
  exact hcursor (Cursor.start _) rfl

theorem compile_current (ps : List Part) :
    compile (Part.current [] ps) = Part.current [regular, escaped, raw] ps := by
  calc compile (Part.current [] ps)
    _ = compileForm regular (compileForm escaped (compileForm raw (Part.current [] ps))) := rfl
    _ = compileForm regular (compileForm escaped (Part.current [raw] ps)) := by
      rw [compileForm_current (by decide) (by decide) (by decide)]
    _ = compileForm regular (Part.current [escaped, raw] ps) := by
      rw [compileForm_current (by decide) (by decide) (by decide)]
    _ = Part.current [regular, escaped, raw] ps :=
      compileForm_current (by decide) (by decide) (by decide) ps

/-- **Part by part.** A template of texts and echos is compiled to what its parts stand for, one
after the other: no echo reaches over the end of its part. -/
theorem compile_source (ps : List Part) : compile (Part.source ps) = Part.output ps := by
  rw [← Part.current_nil, compile_current, Part.current_all]

example :
    let parts : List Part :=
      [.echo ⟨.escaped, true, [' '], ['a'], [' '], by decide, by decide, by decide⟩,
        .text ['\n'] (by decide),
        .echo ⟨.escaped, false, [' '], ['b', ';'], [' '], by decide, by decide, by decide⟩,
        .text ['\r'] (by decide), .text ['\n', 'x'] (by decide),
        .echo ⟨.regular, false, [' '], ['!', '!'], [], by decide, by decide, by decide⟩,
        .echo ⟨.raw, true, [' '], ['c'], [' '], by decide, by decide, by decide⟩]
    Part.source parts = "@{{{ a }}}\n{{{ b; }}}\r\nx{{ !!}}@{!! c !!}".toList ∧
      Part.output parts =
        "{{{ a }}}\n<?php echo e(b); ?>\r\n\r\nx<?php echo e(!!); ?>{!! c !!}".toList := by
  decide

end ComponentTags.Echo
