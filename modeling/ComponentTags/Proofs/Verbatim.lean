import ComponentTags.Proofs.BoundNames
import ComponentTags.Proofs.Directives
import ComponentTags.Proofs.RoundTrip
import ComponentTags.Proofs.Settling

/-!
# Bound values as they are written

The value of `:name="value"` is to be an expression as it is written. It is, exactly if no short
form stands in it (`Free`), because the steps of `Shorthand.expand` do not know where a value ends.

1. An expression has no more sigils than the text in full (`countP_expression_le`), which has no
   more than the value. So if the value is kept, no step has taken a sigil away.
2. A bound variable in the value would leave its dollar sign outside all tokens
   (`countP_lt_of_quote_dollar`).
3. Then only bindings can have been written in full, and the text in full holds none.
-/

namespace ComponentTags

open Text Shorthand

/-! ## Sigils in a literal -/

namespace Echo

variable {kind : Echo} {kept : Bool} {text : Text} {w : Written} {n : Nat}

theorem countP_stripBlanks_le (t : Text) :
    (stripBlanks t).countP isSigil ≤ t.countP isSigil :=
  ((prefix_trimEnd isBlank _).sublist.trans (List.dropWhile_suffix isBlank).sublist).countP_le

theorem countP_lineEnd (t : Text) : (lineEnd t).countP isSigil = 0 := by
  unfold lineEnd
  split <;> rfl

theorem countP_expression_le (body : Text) :
    (expression body).countP isSigil ≤ body.countP isSigil := by
  unfold expression
  split
  · exact (List.dropLast_sublist body).countP_le
  · exact Nat.le_refl _

theorem countP_statement (expression : Text) :
    (kind.statement expression).countP isSigil = expression.countP isSigil := by
  have hquoted : ∀ front back : Text, front.countP isSigil = 0 → back.countP isSigil = 0 →
      (front ++ expression ++ back).countP isSigil = expression.countP isSigil := by
    intro front back hfront hback
    simp [hfront, hback]
  cases kind <;> exact hquoted _ _ (by decide) (by decide)

/-- An echo and the end of line behind it have no fewer sigils than what they are compiled to. -/
theorem countP_compiled_le (h : kind.writtenAfter? kept text = some (w, n)) :
    ∃ u v, text = u ++ v ∧ u.length = n ∧ u ≠ [] ∧
      (kind.compiled w).countP isSigil ≤ (if kept then 1 else 0) + u.countP isSigil := by
  obtain ⟨u, v, rfl, hk, hw, hb, hl, rfl⟩ := exists_eq_append_of_writtenAfter? h
  obtain ⟨v', hv⟩ := exists_eq_lineEnd_append v
  have hline : w.lineEnd.countP isSigil = 0 := by rw [hl, countP_lineEnd]
  refine ⟨w.whole ++ w.lineEnd, v', ?_, by simp, ?_, ?_⟩
  · rw [hw, hl, List.append_assoc _ (lineEnd v), ← hv]
  · cases kind <;> simp [hw, opening]
  rw [List.countP_append, hline]
  unfold compiled
  rw [hk]
  cases kept with
  | true =>
    have hat : (if kind = escaped then ['@'] else []).countP isSigil ≤ 1 := by
      split <;> decide
    simp only [if_true, List.countP_append, hline]
    omega
  | false =>
    have hbody : (expression w.body).countP isSigil ≤ w.whole.countP isSigil := by
      refine (countP_expression_le _).trans ?_
      rw [hb, hw, List.countP_append, List.countP_append]
      have := countP_stripBlanks_le u
      omega
    simp only [Bool.false_eq_true, if_false, List.countP_append, hline, countP_statement]
    omega

theorem finds_written? (kind : Echo) :
    Cursor.Finds kind.written? fun w u => (kind.compiled w).countP isSigil ≤ u.countP isSigil := by
  intro d w n h
  unfold written? at h
  split at h
  · next rest hr =>
    obtain ⟨⟨w', k⟩, hw, he⟩ := Option.map_eq_some_iff.1 h
    obtain ⟨rfl, rfl⟩ := Prod.mk.inj he
    obtain ⟨u, v, rfl, rfl, -, hle⟩ := countP_compiled_le hw
    refine ⟨'@' :: u, v, hr, rfl, by simp, ?_⟩
    simpa [isSigil, Nat.add_comm] using hle
  · obtain ⟨u, v, hr, hlen, hne, hle⟩ := countP_compiled_le h
    exact ⟨u, v, hr, hlen, hne, by simpa using hle⟩

theorem countP_compile_le (t : Text) : (compile t).countP isSigil ≤ t.countP isSigil := by
  have hform : ∀ (kind : Echo) (t : Text), (kind.compileForm t).countP isSigil ≤ t.countP isSigil :=
    fun kind t => Cursor.countP_expand_le kind.finds_written? (Cursor.start t)
  exact (hform _ _).trans ((hform _ _).trans (hform _ t))

end Echo

theorem Segment.countP_escapeQuotes_le (t : Text) :
    (escapeQuotes t).countP isSigil ≤ t.countP isSigil := by
  rw [escapeQuotes, all, flatMap_escaped_ofPieces]
  suffices hpieces : ∀ c : Cursor, ((c.pieces code?).flatMap escapedPiece).countP isSigil ≤
      c.rest.countP isSigil from hpieces (Cursor.start t)
  intro c
  induction c using Cursor.pieces_induction code? with
  | nil c hr => simp [Cursor.pieces_nil hr, hr]
  | plain c a rest hr hh ih =>
    rw [Cursor.rest_next, hr] at ih
    have ha : (escapedPiece (.plain a)).countP isSigil = [a].countP isSigil := by
      by_cases ha : a = '\x27'
      · subst ha
        decide
      · simp [escapedPiece, replaceChar, ha]
    have hcons : (a :: rest).countP isSigil = [a].countP isSigil + rest.countP isSigil := by
      rw [← List.singleton_append, List.countP_append]
    rw [Cursor.pieces_plain hr hh, List.flatMap_cons, hr, List.countP_append, ha, hcons]
    exact Nat.add_le_add_left ih _
  | found c block n hr hh ih =>
    obtain ⟨-, hrest⟩ := exists_eq_cons_of_code? hh
    rw [Cursor.pieces_of_hit hr hh, List.flatMap_cons, hrest, List.countP_append,
      List.countP_append]
    exact Nat.add_le_add_left ih _

theorem Text.countP_replaceAll_le (old new t : Text) (hold : old ≠ [])
    (hnew : new.countP isSigil = 0) :
    (replaceAll old new t).countP isSigil ≤ t.countP isSigil := by
  refine Cursor.countP_expand_le (f := fun _ => new) (fun d item n h => ?_) (Cursor.start t)
  unfold literal at h
  split at h
  · next hp =>
    obtain ⟨v, hv⟩ := List.isPrefixOf_iff_prefix.1 hp
    obtain ⟨-, rfl⟩ := Prod.mk.inj (Option.some.inj h)
    exact ⟨old, v, hv.symm, rfl, hold, by omega⟩
  · simp at h

/-- A literal has no more sigils than what it is written with. -/
theorem AttributeReader.countP_literalValue_le (value : Text) :
    (literalValue Echo.compile value).countP isSigil ≤ value.countP isSigil := by
  have hquote : ['\x27'].countP isSigil = 0 := by decide
  have hbody : (literalBody Echo.compile value).countP isSigil ≤ value.countP isSigil :=
    calc (literalBody Echo.compile value).countP isSigil
      _ ≤ (replaceAll "<?php echo ".toList ['\x27', '.']
            (Segment.escapeQuotes (Echo.compile value))).countP isSigil :=
        countP_replaceAll_le _ _ _ (by decide) (by decide)
      _ ≤ (Segment.escapeQuotes (Echo.compile value)).countP isSigil :=
        countP_replaceAll_le _ _ _ (by decide) (by decide)
      _ ≤ (Echo.compile value).countP isSigil := Segment.countP_escapeQuotes_le _
      _ ≤ value.countP isSigil := Echo.countP_compile_le value
  rwa [literalValue, List.countP_append, List.countP_append, hquote, Nat.zero_add, Nat.add_zero]

/-! ## Sigils in tokens -/

namespace Token

variable {t v : Text} {c : Cursor} {k : Token} {n : Nat}

theorem unquoted_sublist (t : Text) : List.Sublist (unquoted t) t := by
  unfold unquoted
  split
  · exact (List.dropLast_sublist _).cons _
  · exact (List.dropLast_sublist _).cons _
  · exact List.Sublist.refl _

/-- The value of a token has no more sigils than the text in which it is found. -/
theorem countP_verbatim_le (h : k ∈ Piece.items (c.pieces token?)) :
    k.verbatim.countP isSigil ≤ c.rest.countP isSigil := by
  obtain ⟨d, n, hd, hi⟩ := Cursor.exists_hit_of_mem_items h
  cases hv : k.value with
  | none =>
    have htrue : trueValue.countP isSigil = 0 := by decide
    simp [verbatim, hv, htrue]
  | some v =>
    have hvalue := (of_token?_eq_some hi).2 v hv
    have hverbatim : k.verbatim = unquoted v := by simp [verbatim, hv]
    rw [hverbatim]
    exact ((unquoted_sublist v).trans (hvalue.sublist.trans hd.sublist)).countP_le

theorem countP_expression_le (k : Token) :
    (k.expression Echo.compile).countP isSigil ≤ k.verbatim.countP isSigil := by
  unfold expression
  split
  · exact Nat.le_refl _
  · exact AttributeReader.countP_literalValue_le _

/-- A dollar sign right behind a quoted value is in no token. -/
theorem countP_lt_of_quote_dollar {name inner rest : Text} (hname : IsRun isAttributeNameChar name)
    (hq : '"' ∉ inner) (hne : inner ≠ [])
    (hr : c.rest = ' ' :: (name ++ '=' :: '"' :: (inner ++ '"' :: '$' :: rest)))
    (h : k ∈ Piece.items (c.pieces token?)) :
    k.verbatim.countP isSigil < c.rest.countP isSigil := by
  have hcount : inner.countP isSigil + rest.countP isSigil < c.rest.countP isSigil := by
    rw [hr]
    simp [isSigil]
    omega
  obtain ⟨whole, hwhole⟩ : ∃ whole, whole = name ++ '=' :: ('"' :: inner ++ ['"']) := ⟨_, rfl⟩
  have hn : c.next.rest = whole ++ '$' :: rest := by simp [Cursor.rest_next, hr, hwhole]
  have hvalue : value? ('"' :: (inner ++ '"' :: '$' :: rest)) = some ('"' :: inner ++ ['"']) := by
    simp [value?, quotedValue?, takeWhile_ne_append hq, hne]
  have hlen : name.length + 1 + ('"' :: inner ++ ['"']).length = whole.length := by
    simp [hwhole]
    omega
  have hhit := token?_of_value? (c := c.next) hname hvalue (by simp [hn, hwhole])
  rw [hlen] at hhit
  have hdollar := Cursor.rest_advance_append hn
  rw [Cursor.pieces_plain hr (token?_eq_none hr (by decide)), Piece.items,
    Cursor.pieces_append_of_hit hn (by simp [hwhole]) hhit, Piece.items,
    Cursor.pieces_plain hdollar (token?_eq_none hdollar (by decide)), Piece.items,
    List.mem_cons] at h
  rcases h with rfl | h
  · have hverbatim : verbatim ⟨name, some ('"' :: inner ++ ['"'])⟩ = inner := by
      simp [verbatim, unquoted]
    rw [hverbatim]
    omega
  · have hle := countP_verbatim_le h
    rw [Cursor.rest_next, hdollar] at hle
    exact Nat.lt_of_le_of_lt (hle.trans (Nat.le_add_left _ _)) hcount

end Token

/-! ## The text of a bound attribute -/

namespace Shorthand

variable {name value inner rest : Text} {directive : StyleCall} {x : Char} {c : Cursor}

/-- No short form stands in the text; at its front there may be one. -/
structure Free (t : Text) : Prop where
  no_variable : ¬ Behind isSpace IsVariable t
  no_bag : ¬ Behind isBlank IsBag t
  no_call : ∀ directive, ¬ HoldsCall directive t
  no_binding : ¬ Behind isSpace IsBinding t

/-- A bound attribute behind a space. -/
def boundAttribute (name value : Text) : Text :=
  ' ' :: (Written.bound name value).text

theorem boundAttribute_eq (name value : Text) :
    boundAttribute name value = ' ' :: ':' :: (name ++ '=' :: '"' :: (value ++ ['"'])) :=
  rfl

theorem infix_boundAttribute (name value : Text) : value <:+: boundAttribute name value :=
  ⟨' ' :: ':' :: (name ++ ['=', '"']), ['"'], by simp [boundAttribute_eq]⟩

theorem isBlank_of_mem_front (hname : IsRun Written.isPlainNameChar name) :
    ∀ x ∈ ':' :: (name ++ ['=', '"']), isBlank x = false := by
  rw [List.forall_mem_cons, List.forall_mem_append]
  exact ⟨by decide, fun x hx => Written.isBlank_of_isPlainNameChar (hname.2 x hx),
    forall_mem_of_all (by decide)⟩

theorem isSpace_of_mem_front (hname : IsRun Written.isPlainNameChar name) :
    ∀ x ∈ ':' :: (name ++ ['=', '"']), isSpace x = false := by
  exact fun x hx => isSpace_of_not_isBlank (isBlank_of_mem_front hname x hx)

theorem not_prefix_dollar (hname : IsRun Written.isPlainNameChar name) (u v : Text) :
    ¬ ':' :: '$' :: u <+: ':' :: (name ++ v) := by
  obtain ⟨b, name, rfl, hb⟩ := hname.exists_cons
  intro hp
  obtain rfl : '$' = b := (List.cons_prefix_cons.1 (List.cons_prefix_cons.1 hp).2).1
  exact absurd hb (by decide)

/-- What begins in the value of an attribute and does not end with a quote ends in it. -/
theorem infix_value_of_infix {a z : Char} {m : Text} (ha : a ∉ ':' :: (name ++ ['=', '"']))
    (hz : z ≠ '"') (h : a :: (m ++ [z]) <:+: (Written.bound name value).text) :
    a :: (m ++ [z]) <:+: value := by
  have htext : (Written.bound name value).text =
      ':' :: (name ++ ['=', '"']) ++ (value ++ ['"']) := by
    simp [Written.text, Written.quotedValue]
  rw [htext, infix_append_iff_of_not_mem ha] at h
  have hlast : z ∉ ['"'] := by simpa using hz
  have h' : (a :: m) ++ [z] <:+: value ++ ['"'] := h
  exact (infix_append_iff_of_not_mem_right hlast).1 h'

theorem behind_variable_value (hname : IsRun Written.isPlainNameChar name)
    (h : Behind isSpace IsVariable (boundAttribute name value)) :
    Behind isSpace IsVariable value := by
  obtain ⟨a, u, ha, ⟨w, hw, rfl⟩, hi⟩ := h
  refine ⟨a, _, ha, ⟨w, hw, rfl⟩, ?_⟩
  rcases List.infix_cons_iff.1 hi with hp | hi
  · exact absurd (List.cons_prefix_cons.1 hp).2 (not_prefix_dollar hname _ _)
  · have hword : w ≠ '"' := by
      rintro rfl
      exact absurd hw (by decide)
    exact infix_value_of_infix (m := [':', '$'])
      (fun hm => ne_of_isSpace ha (isSpace_of_mem_front hname a hm) rfl) hword hi

theorem apart_bag_value (hname : IsRun Written.isPlainNameChar name)
    (h : Apart isBlank IsBag (boundAttribute name value)) : Behind isBlank IsBag value := by
  rcases h with ⟨u, ⟨gap, inner, -, -, rfl⟩, hp⟩ | ⟨a, u, ha, hu, hi⟩
  · exact absurd (List.cons_prefix_cons.1 hp).1 (by decide)
  refine ⟨a, u, ha, hu, ?_⟩
  obtain ⟨gap, inner, -, -, rfl⟩ := hu
  rcases List.infix_cons_iff.1 hi with hp | hi
  · have hcolon := (List.cons_prefix_cons.1 (List.cons_prefix_cons.1 hp).2).1
    exact absurd hcolon (by decide)
  · have hlast : '{' :: '{' :: (gap ++ bagName ++ inner ++ ['}', '}']) =
        ('{' :: '{' :: (gap ++ bagName ++ inner ++ ['}'])) ++ ['}'] := by simp
    rw [hlast] at hi ⊢
    refine infix_value_of_infix (fun hm => ?_) (by decide) hi
    rw [isBlank_of_mem_front hname a hm] at ha
    simp at ha

theorem holdsCall_value (hname : IsRun Written.isPlainNameChar name)
    (h : HoldsCall directive (boundAttribute name value)) : HoldsCall directive value := by
  obtain ⟨u, hu, hi⟩ := h
  refine ⟨u, hu, ?_⟩
  obtain ⟨arguments, hg, rfl⟩ := hu
  obtain ⟨inner, rfl⟩ := hg.exists_eq
  have hlast : '@' :: directive.name ++ ('(' :: inner ++ [')']) =
      '@' :: ((directive.name ++ '(' :: inner) ++ [')']) := by simp
  have hat : '@' ∉ ':' :: (name ++ ['=', '"']) := by
    have hn := Written.not_mem_of_isRun (x := '@') hname (by decide)
    simp [hn]
  rw [hlast] at hi ⊢
  rcases List.infix_cons_iff.1 hi with hp | hi
  · exact absurd (List.cons_prefix_cons.1 hp).1 (by decide)
  · exact infix_value_of_infix hat (by decide) hi

theorem countP_boundAttribute (hname : IsRun Written.isPlainNameChar name) (value : Text) :
    (boundAttribute name value).countP isSigil = value.countP isSigil := by
  have hzero := countP_eq_zero_of_forall (forall_mem_of_all (by decide)) hname.2
  simp [boundAttribute_eq, hzero, isSigil]

/-! ## Its binding -/

theorem expandBindings_bound (hname : IsRun Written.isPlainNameChar name) (rest : Text) :
    ∃ c : Cursor, c.rest = rest ∧ 0 < c.pos ∧
      expandBindings (' ' :: ':' :: (name ++ '=' :: rest)) =
        bindingStart name ++ Piece.expand bindingStart (c.pieces binding?) := by
  obtain ⟨start, hstart⟩ : ∃ start, start = ' ' :: ':' :: (name ++ ['=']) := ⟨_, rfl⟩
  have hr : (Cursor.start (' ' :: ':' :: (name ++ '=' :: rest))).rest = start ++ rest := by
    simp [Cursor.start, hstart]
  have hhit := Written.binding?_of_isRun Spaced.isRun_space hname hstart hr
  refine ⟨_, Cursor.rest_advance_append hr, ?_,
    Cursor.expand_pieces_of_hit bindingStart hr (by simp [hstart]) hhit⟩
  rw [Cursor.pos_advance_append hr, hstart]
  simp

/-- Neither a binding nor what is put in for it has a quote or a dollar sign. -/
theorem finds_binding?_not_mem (hx : x = '"' ∨ x = '$') :
    Cursor.Finds binding? fun name u => x ∉ u ∧ x ∉ bindingStart name ∧ bindingStart name ≠ [] := by
  refine finds_binding?.imp ?_
  rintro name u ⟨spaces, rfl, hs, hname⟩
  have hspace : x ∉ spaces := by
    intro hm
    have h := hs x hm
    rcases hx with rfl | rfl <;> exact absurd h (by decide)
  have hn : x ∉ name := Written.not_mem_of_isRun hname (by rcases hx with rfl | rfl <;> decide)
  have hmark : x ∉ bindMark := by rcases hx with rfl | rfl <;> decide
  have hother : x ∉ [' ', ':', '='] := by rcases hx with rfl | rfl <;> decide
  simp only [List.mem_cons, List.not_mem_nil, or_false, not_or] at hother
  refine ⟨?_, ?_, by simp [bindingStart]⟩
  · simp [hspace, hn, hother]
  · simp [bindingStart, hmark, hn, hother]

/-- The quotes around a value stay, and so does a dollar sign behind them. -/
theorem expandBindings_quoted (hname : IsRun Written.isPlainNameChar name) (hq : '"' ∉ inner)
    (rest : Text) :
    ∃ (inner' : Text) (d : Cursor), '"' ∉ inner' ∧ (inner' = [] ↔ inner = []) ∧ d.rest = rest ∧
      expandBindings (' ' :: ':' :: (name ++ '=' :: '"' :: (inner ++ '"' :: rest))) =
        ' ' :: (bindMark ++ name ++ '=' :: '"' :: (inner' ++ '"' ::
          Piece.expand bindingStart (d.pieces binding?))) := by
  obtain ⟨c, hc, -, hfull⟩ := expandBindings_bound hname ('"' :: (inner ++ '"' :: rest))
  have hfinds := finds_binding?_not_mem (x := '"') (Or.inl rfl)
  obtain ⟨front, d, -, hfront, hd, h₁⟩ := Cursor.exists_expand_cut (u := []) hfinds hc (by simp)
  obtain ⟨inner', e, hq', hiff, he, h₂⟩ := Cursor.exists_expand_cut hfinds hd hq
  refine ⟨inner', e, hq', hiff, he, ?_⟩
  rw [hfull, h₁, h₂, hfront.2 rfl, bindingStart_eq]
  simp

/-! ## A bound attribute in full -/

theorem expand_boundAttribute (hname : IsRun Written.isPlainNameChar name) (h : Free value) :
    expand (boundAttribute name value) =
      ' ' :: (bindMark ++ name ++ Written.quotedValue value) := by
  have hv : expandVariables (boundAttribute name value) = boundAttribute name value :=
    expandVariables_eq_self fun hb => h.no_variable (behind_variable_value hname hb)
  have hsettled : Settled (boundAttribute name value) :=
    ⟨fun hb => h.no_bag (apart_bag_value hname hb),
      fun directive hc => h.no_call directive (holdsCall_value hname hc)⟩
  obtain ⟨c, hc, hpos, hfull⟩ := expandBindings_bound hname ('"' :: (value ++ ['"']))
  have hmiss : c.Misses binding? c.rest := by
    refine (misses_iff_of_run (fun _ => IsBinding.ne_nil) fun _ => binding?_ne_none_iff).2
      ⟨fun h₀ => ?_, ?_⟩
    · omega
    rintro ⟨a, u, ha, hu, hi⟩
    refine h.no_binding ⟨a, u, ha, hu, ?_⟩
    -- A binding has no quote, so it stands on one side of each.
    have hq : '"' ∉ a :: u := by
      obtain ⟨name', hrun, -, rfl⟩ := hu
      have hn := Written.not_mem_of_isRun (x := '"') hrun (by decide)
      have hne : '"' ≠ a := (ne_of_isSpace ha (by decide)).symm
      simp [hn, hne]
    rw [hc] at hi
    rcases (infix_append_cons_iff (u := []) hq).1 hi with hi | hi
    · simp at hi
    rcases (infix_append_cons_iff hq).1 hi with hi | hi
    · exact hi
    · simp at hi
  rw [expand_eq_of_settled (hv.symm ▸ hsettled), hv, boundAttribute_eq, hfull,
    Cursor.expand_of_misses bindingStart hmiss, hc, bindingStart_eq, Written.quotedValue]
  simp

theorem misses_boundVariable?_front (hname : IsRun Written.isPlainNameChar name)
    (hr : c.rest = ' ' :: ':' :: (name ++ ['=', '"']) ++ rest) :
    c.Misses boundVariable? (' ' :: ':' :: (name ++ ['=', '"'])) := by
  refine Cursor.misses_of_suffix hr fun s d hs hne hd _ => ?_
  by_contra hsome
  obtain ⟨⟨name', n⟩, hsome⟩ := Option.ne_none_iff_exists'.1 hsome
  obtain ⟨a, tail, htail, ha, -⟩ := boundVariable?_eq_some_iff.1 hsome
  have hp : a :: ':' :: '$' :: (name' ++ tail) <+: s ++ rest := ⟨[], by simp [← htail, hd]⟩
  have hcolon := prefix_of_prefix_space (isSpace_of_mem_front hname) ha hs hne hp
  rw [List.cons_append, List.append_assoc] at hcolon
  exact not_prefix_dollar hname _ _ hcolon

/-- The variables are written in full from the first one on, which stands in the value. -/
theorem exists_first_variable (hname : IsRun Written.isPlainNameChar name)
    (h : Behind isSpace IsVariable (boundAttribute name value)) :
    ∃ u name' rest, u <+: value ∧ IsRun isWordChar name' ∧
      expandVariables (boundAttribute name value) =
        ' ' :: ':' :: (name ++ ['=', '"']) ++ (u ++ (variableAttribute name' ++ rest)) := by
  have hr : (Cursor.start (boundAttribute name value)).rest =
      ' ' :: ':' :: (name ++ ['=', '"']) ++ (value ++ ['"']) := by
    simp [Cursor.start, boundAttribute_eq]
  have hmiss := misses_boundVariable?_front hname hr
  have hrest := Cursor.rest_advance_append hr
  have hfull := Cursor.expand_pieces_of_misses variableAttribute hr hmiss
  generalize hc : (Cursor.start (boundAttribute name value)).advance _ = c at hrest hfull
  have hhits : ¬ c.Misses boundVariable? c.rest := by
    intro hm
    refine misses_boundVariable?_iff.1 ?_ h
    rw [hrest, ← hc] at hm
    have hall := hmiss.append hm
    rwa [← hr] at hall
  obtain ⟨u, a, v, name', n, hu, hum, hhit⟩ := Cursor.exists_first_hit hhits
  obtain ⟨b, tail, hb, -, hname', -⟩ := boundVariable?_eq_some_iff.1 hhit
  rw [Cursor.expand_pieces_first_hit variableAttribute hu hum hhit] at hfull
  refine ⟨u, name', _, ?_, hname', hfull⟩
  -- More than the quote follows.
  rw [Cursor.rest_advance_append hu] at hb
  rw [hrest, hb] at hu
  rcases List.append_eq_append_iff.1 hu with ⟨w, -, hw⟩ | ⟨w, hw, -⟩
  · have hlen := congrArg List.length hw
    simp only [List.length_append, List.length_cons, List.length_nil] at hlen
    omega
  · exact ⟨w, hw.symm⟩

/-- A bound variable in the value leaves its dollar sign behind a quote. -/
theorem exists_quote_dollar (hname : IsRun Written.isPlainNameChar name) (hq : '"' ∉ value)
    (h : Behind isSpace IsVariable (boundAttribute name value)) :
    ∃ inner rest, '"' ∉ inner ∧ inner ≠ [] ∧
      expandBindings (expandVariables (boundAttribute name value)) =
        ' ' :: (bindMark ++ name ++ '=' :: '"' :: (inner ++ '"' :: '$' :: rest)) := by
  obtain ⟨u, name', rest, hu, hname', hfull⟩ := exists_first_variable hname h
  have hword : '"' ∉ name' := Written.not_mem_of_isRun hname' (by decide)
  have hinner : '"' ∉ u ++ ' ' :: ':' :: (name' ++ ['=']) := by
    have hu' : '"' ∉ u := fun hm => hq (hu.subset hm)
    simp [hu', hword]
  have htext : expandVariables (boundAttribute name value) =
      ' ' :: ':' :: (name ++ '=' :: '"' :: ((u ++ ' ' :: ':' :: (name' ++ ['='])) ++
        '"' :: '$' :: (name' ++ '"' :: rest))) := by
    rw [hfull]
    simp [variableAttribute]
  obtain ⟨inner, d, hq', hiff, hd, hbindings⟩ :=
    expandBindings_quoted hname hinner ('$' :: (name' ++ '"' :: rest))
  have hne : inner ≠ [] := fun h₀ => by simpa using hiff.1 h₀
  -- The dollar sign begins no binding.
  obtain ⟨front, e, -, hfront, -, hdollar⟩ := Cursor.exists_expand_cut (u := [])
    (finds_binding?_not_mem (x := '$') (Or.inr rfl)) hd (by simp)
  rw [hdollar, hfront.2 rfl, ← htext] at hbindings
  exact ⟨inner, _, hq', hne, hbindings⟩

end Shorthand

/-! ## Reading -/

namespace AttributeReader

variable {reader : AttributeReader} {strict : Bool} {name value : Text}

/-- The value of a bound attribute is read as it is written. -/
def KeepsVerbatim (reader : AttributeReader) (name value : Text) : Prop :=
  ∃ attributes, reader.read (boundAttribute name value) = .ok attributes ∧
    attributes.values.entries = [(name, value)] ∧ attributes.bound = [name]

theorem all_bound (hname : IsRun Written.isPlainNameChar name) (hq : '"' ∉ value) :
    Token.all (' ' :: (bindMark ++ name ++ Written.quotedValue value)) =
      [⟨bindMark ++ name, some ('"' :: value ++ ['"'])⟩] := by
  have hr : (Cursor.start (' ' :: (bindMark ++ name ++ Written.quotedValue value))).rest =
      ' ' :: (bindMark ++ name ++ Written.quotedValue value) := rfl
  have hn : (Cursor.start (' ' :: (bindMark ++ name ++ Written.quotedValue value))).next.rest =
      (bindMark ++ name ++ Written.quotedValue value) ++ [] := by
    rw [Cursor.rest_next, hr, List.append_nil]
    rfl
  have hhit :=
    Token.token?_quoted (Written.isRun_bindMark hname) hq (v := []) (by simp [Stops]) hn
  rw [Token.all, Cursor.pieces_plain hr (Token.token?_eq_none hr (by decide)), Piece.items,
    Cursor.pieces_append_of_hit hn (by simp [hname.1]) hhit, Piece.items,
    Cursor.pieces_nil (Cursor.rest_advance_append hn)]
  rfl

/-- What is read from a text that has one bound attribute in full. -/
theorem read_of_expand_eq {t : Text} (hname : IsRun Written.isPlainNameChar name) (hq : '"' ∉ value)
    (ht : expand t = ' ' :: (bindMark ++ name ++ Written.quotedValue value)) :
    ∃ attributes, reader.read t = .ok attributes ∧
      attributes.values.entries = [(name, value)] ∧ attributes.bound = [name] := by
  have hc : ':' ∉ name := Written.not_mem_of_isRun hname (by decide)
  have hm : bindMark.isPrefixOf? (bindMark ++ name) = some name :=
    List.isPrefixOf?_eq_some_iff_append_eq.2 rfl
  have hv : unquoted ('"' :: value ++ ['"']) = value := by simp [unquoted]
  have htokens : ofTokens reader.echo [⟨bindMark ++ name, some ('"' :: value ++ ['"'])⟩] =
      Attributes.empty.putBound name name value := by
    simp only [ofTokens, List.foldl_cons, List.foldl_nil, addToken, hm, hv,
      Spaced.keyOf_of_not_mem hc]
  refine ⟨Attributes.empty.putBound name name value, ?_, rfl, rfl⟩
  unfold read
  simp only [ht, all_bound hname hq, htokens]

theorem exists_token_of_keepsVerbatim (h : KeepsVerbatim reader name value) :
    ∃ k ∈ Token.all (expand (boundAttribute name value)), k.expression reader.echo = value := by
  obtain ⟨attributes, hread, hentries, -⟩ := h
  rw [read_eq] at hread
  split at hread
  · cases hread
  · obtain rfl := Except.ok.inj hread
    have hget : (ofTokens reader.echo (Token.all (expand (boundAttribute name value)))).values.get?
        name = some value := by
      simp [Table.get?, hentries]
    rw [get?_ofTokens] at hget
    obtain ⟨k, hk, he⟩ := Option.map_eq_some_iff.1 hget
    exact ⟨k, (Token.mem_of_supplier? hk).1, he⟩

section Kept

variable {k : Token} (hname : IsRun Written.isPlainNameChar name) (hq : '"' ∉ value)
  (hk : k ∈ Token.all (expand (boundAttribute name value)))
  (he : k.expression Echo.compile = value)

include hname hk he

/-- If the value is the expression of a token, no step has taken a sigil away. -/
theorem settled_of_mem_all : Settled (expandVariables (boundAttribute name value)) := by
  by_contra hsettled
  have hlt := countP_expand_lt hsettled
  rw [countP_boundAttribute hname] at hlt
  have h₁ := Token.countP_expression_le k
  rw [he] at h₁
  have h₂ : k.verbatim.countP isSigil ≤ (expand (boundAttribute name value)).countP isSigil :=
    Token.countP_verbatim_le (c := Cursor.start (expand (boundAttribute name value))) hk
  omega

include hq

/-- The dollar sign of a variable would be missing. -/
theorem not_behind_variable_of_mem_all :
    ¬ Behind isSpace IsVariable (boundAttribute name value) := by
  intro hb
  obtain ⟨inner, rest, hq', hne, hfull⟩ := exists_quote_dollar hname hq hb
  rw [← expand_eq_of_settled (settled_of_mem_all hname hk he)] at hfull
  have hlt : k.verbatim.countP isSigil < (expand (boundAttribute name value)).countP isSigil :=
    Token.countP_lt_of_quote_dollar (c := Cursor.start (expand (boundAttribute name value)))
      (Written.isRun_bindMark hname) hq' hne hfull hk
  have h₁ := Token.countP_expression_le k
  have h₂ := countP_expand_le (boundAttribute name value)
  rw [countP_boundAttribute hname] at h₂
  rw [he] at h₁
  omega

/-- So nothing but the bindings was written in full. -/
theorem expand_eq_of_mem_all :
    Settled (boundAttribute name value) ∧
      expand (boundAttribute name value) = expandBindings (boundAttribute name value) := by
  have hsettled := settled_of_mem_all hname hk he
  have hv := expandVariables_eq_self (not_behind_variable_of_mem_all hname hq hk he)
  have hexpand := expand_eq_of_settled hsettled
  rw [hv] at hsettled hexpand
  exact ⟨hsettled, hexpand⟩

end Kept

/-- A value that is kept holds no short form. -/
theorem free_of_keepsVerbatim (hname : IsRun Written.isPlainNameChar name) (hq : '"' ∉ value)
    (h : KeepsVerbatim ⟨Echo.compile, strict⟩ name value) : Free value := by
  obtain ⟨k, hk, he⟩ := exists_token_of_keepsVerbatim h
  have hvariable := not_behind_variable_of_mem_all hname hq hk he
  obtain ⟨hsettled, hexpand⟩ := expand_eq_of_mem_all hname hq hk he
  obtain ⟨value', d, hq', -, hd, hfull⟩ := expandBindings_quoted hname hq []
  rw [Cursor.pieces_nil hd, ← boundAttribute_eq, ← hexpand] at hfull
  obtain rfl : value' = value := by
    obtain ⟨attributes, hread, hentries, -⟩ := h
    obtain ⟨attributes', hread', hentries', -⟩ := read_of_expand_eq hname hq' hfull
    rw [hread] at hread'
    obtain rfl := Except.ok.inj hread'
    rw [hentries] at hentries'
    simpa using hentries'.symm
  have hin := infix_boundAttribute name value'
  refine ⟨fun hb => hvariable (hb.mono hin), fun hb => hsettled.no_bag (Or.inr (hb.mono hin)),
    fun directive hc => ?_, fun hb => ?_⟩
  · obtain ⟨u, hu, hi⟩ := hc
    exact hsettled.no_call directive ⟨u, hu, hi.trans hin⟩
  · -- The text in full holds the value, and no binding.
    have hbinding := not_apart_binding_expandBindings (boundAttribute name value')
    rw [← hexpand, hfull] at hbinding
    refine hbinding (Or.inr (hb.mono ⟨' ' :: (bindMark ++ name ++ ['=', '"']), ['"'], ?_⟩))
    simp [Piece.expand]

/-- **Bound values.** The value of a bound attribute is its expression, as it is written, if and
only if no variable, no echo of the attribute bag and no binding stands in it behind a blank, and no
call anywhere. Then this is so however echos are compiled. -/
theorem keepsVerbatim_iff (hname : IsRun Written.isPlainNameChar name) (hq : '"' ∉ value) :
    (∀ strict, KeepsVerbatim ⟨Echo.compile, strict⟩ name value ↔ Free value) ∧
      (Free value → ∀ reader : AttributeReader, reader.KeepsVerbatim name value) := by
  have hkeeps : Free value → ∀ reader : AttributeReader, reader.KeepsVerbatim name value :=
    fun h reader => read_of_expand_eq hname hq (expand_boundAttribute hname h)
  exact ⟨fun strict => ⟨free_of_keepsVerbatim hname hq, fun h => hkeeps h _⟩, hkeeps⟩

theorem keepsVerbatim_echo :
    IsRun Written.isPlainNameChar "a.b".toList ∧
      '"' ∉ "$a ? 'x' : \x7b\x7b $b \x7d\x7d@class".toList ∧
      Free "$a ? 'x' : \x7b\x7b $b \x7d\x7d@class".toList ∧
      KeepsVerbatim ⟨id, true⟩ "a.b".toList
        "$a ? 'x' : \x7b\x7b $b \x7d\x7d@class".toList := by
  have h := @keepsVerbatim_iff "a.b".toList "$a ? 'x' : \x7b\x7b $b \x7d\x7d@class".toList
    (by decide) (by decide)
  have hfree := (h.1 true).1 ⟨_, rfl, by decide, by decide⟩
  exact ⟨by decide, by decide, hfree, h.2 hfree _⟩

/-- The quote that is put in for a variable ends the value before it. -/
theorem read_bound_variable_ne :
    IsRun Written.isPlainNameChar "a".toList ∧ '"' ∉ " :$x".toList ∧
      (∃ attributes, AttributeReader.read ⟨Echo.compile, true⟩ " :a=\" :$x\"".toList =
          .ok attributes ∧
        attributes.values.entries =
          [("a".toList, " bind:x=".toList), ("x".toList, "true".toList)] ∧
        attributes.bound = ["a".toList, "x".toList]) ∧
      ¬ KeepsVerbatim ⟨Echo.compile, true⟩ "a".toList " :$x".toList := by
  refine ⟨by decide, by decide, ⟨_, rfl, by decide, by decide⟩, ?_⟩
  rintro ⟨attributes, hread, hentries, -⟩
  obtain rfl := Except.ok.inj hread
  exact absurd hentries (by decide)

end AttributeReader

end ComponentTags
