import ComponentTags.Attribute.Parse
import ComponentTags.Echo
import ComponentTags.Proofs.ShortForms

/-!
# Writing in full twice

A text in full holds no bound variable and no binding, so a second run can only find echos of the
attribute bag and calls: those that were nested in others. If there are none the text is settled,
and a second run changes nothing. If there are some, each of them costs a sigil (`isSigil`), and no
step adds any (`countP_expand_le`). So the second run does change the text, and after enough runs
the text is settled. The texts that a run leaves as they are are those that hold no short form at
all (`expand_eq_self_iff`).
-/

namespace ComponentTags.Shorthand

open Text

variable {t u : Text} {x : Char}

/-! ## What is taken away -/

theorem finds_boundVariable? :
    Cursor.Finds boundVariable? fun name u => ∃ a, u = a :: ':' :: '$' :: name ∧
      IsRun isWordChar name := by
  intro d name n h
  obtain ⟨a, rest, hr, -, hname, -, rfl⟩ := boundVariable?_eq_some_iff.1 h
  exact ⟨a :: ':' :: '$' :: name, rest, hr, rfl, by simp, a, rfl, hname⟩

theorem finds_bagEcho? :
    Cursor.Finds bagEcho? fun text u => ∃ blanks gap inner, text = trimEnd isBlank inner ∧
      u = blanks ++ '{' :: '{' :: (gap ++ bagName ++ inner ++ ['}', '}']) := by
  intro d text n h
  obtain ⟨blanks, rest, inner, m, hr, -, -, hbag, rfl, rfl⟩ := bagEcho?_eq_some_iff.1 h
  obtain ⟨gap, v, rfl, -, -, rfl⟩ := bag?_eq_some_iff.1 hbag
  refine ⟨_, v, by simp [hr], ?_, by simp, blanks, gap, inner, rfl, rfl⟩
  simp [Nat.add_assoc]

theorem finds_call? (directive : Text) :
    Cursor.Finds (call? directive) fun arguments u => u = '@' :: directive ++ arguments := by
  intro d arguments n h
  obtain ⟨rest, hr, -, rfl⟩ := call?_eq_some_iff.1 h
  refine ⟨_, rest, hr, ?_, by simp, rfl⟩
  simp only [List.length_append, List.length_cons]

theorem finds_binding? :
    Cursor.Finds binding? fun name u => ∃ spaces, u = spaces ++ ':' :: (name ++ ['=']) ∧
      (∀ x ∈ spaces, isSpace x = true) ∧ IsRun isAttributeNameChar name := by
  intro d name n h
  obtain ⟨spaces, rest, hr, hs, -, hname, -, rfl⟩ := binding?_eq_some_iff.1 h
  refine ⟨_, rest, by simp [hr], ?_, by simp, spaces, rfl, hs, hname⟩
  simp only [List.length_append, List.length_cons, List.length_nil]
  omega

/-! ## Sigils -/

/-- The characters that the short forms are known by, apart from the colon. -/
def isSigil (x : Char) : Bool :=
  x == '{' || x == '@' || x == '$'

theorem countP_eq_zero_of_forall {p : Char → Bool} (hp : ∀ y ∈ ['{', '@', '$'], p y = false)
    (hu : ∀ x ∈ u, p x = true) : u.countP isSigil = 0 := by
  refine List.countP_eq_zero.2 fun x hx hsigil => ?_
  have hmem : x ∈ ['{', '@', '$'] := by simpa [isSigil, or_assoc] using hsigil
  have h := hp x hmem
  rw [hu x hx] at h
  simp at h

theorem countP_of_isRun_isWordChar (h : IsRun isWordChar u) : u.countP isSigil = 0 :=
  countP_eq_zero_of_forall (forall_mem_of_all (by decide)) h.2

theorem countP_isSigil_replaceQuotes (t : Text) :
    (replaceChar '"' ['\x27'] t).countP isSigil = t.countP isSigil := by
  induction t with
  | nil => rfl
  | cons b t ih =>
    rw [replaceChar_cons, List.countP_append, ih, List.countP_cons]
    by_cases hb : b = '"'
    · simp [hb, isSigil]
    · simp [hb, List.countP_cons, Nat.add_comm]

theorem countP_variableAttribute {name : Text} (hname : IsRun isWordChar name) :
    (variableAttribute name).countP isSigil = 1 := by
  simp [variableAttribute, countP_of_isRun_isWordChar hname, isSigil]

theorem countP_bagAttribute (text : Text) :
    (bagAttribute text).countP isSigil = bagName.countP isSigil + text.countP isSigil := by
  have hquoted : ∀ front : Text, front.countP isSigil = 0 →
      (front ++ bagName ++ text ++ ['"']).countP isSigil =
        bagName.countP isSigil + text.countP isSigil := by
    intro front hfront
    simp [hfront, isSigil]
  exact hquoted _ (by decide)

theorem countP_bagAttribute_lt (blanks gap inner : Text) :
    (bagAttribute (trimEnd isBlank inner)).countP isSigil <
      (blanks ++ '{' :: '{' :: (gap ++ bagName ++ inner ++ ['}', '}'])).countP isSigil := by
  have hinner : (trimEnd isBlank inner).countP isSigil ≤ inner.countP isSigil :=
    (prefix_trimEnd isBlank inner).sublist.countP_le
  have hopen : ∀ v : Text, ('{' :: '{' :: v).countP isSigil = v.countP isSigil + 2 :=
    fun v => by simp [isSigil]
  rw [countP_bagAttribute, List.countP_append, hopen]
  generalize bagName = name
  simp only [List.countP_append]
  omega

theorem countP_callAttribute_lt (directive : StyleCall) (arguments : Text) :
    (callAttribute directive.name directive.helper arguments).countP isSigil <
      ('@' :: directive.name ++ arguments).countP isSigil := by
  have hname := countP_of_isRun_isWordChar directive.isRun_name
  have hhelper : directive.helper.countP isSigil = 0 := by cases directive <;> decide
  simp [callAttribute, countP_isSigil_replaceQuotes, hname, hhelper, isSigil]

theorem countP_bindingStart_le (spaces name : Text) :
    (bindingStart name).countP isSigil ≤ (spaces ++ ':' :: (name ++ ['='])).countP isSigil := by
  have hmark : bindMark.countP isSigil = 0 := by decide
  simp [bindingStart, hmark, isSigil]

theorem countP_expandVariables_le (t : Text) :
    (expandVariables t).countP isSigil ≤ t.countP isSigil := by
  refine Cursor.countP_expand_le (finds_boundVariable?.imp ?_) (Cursor.start t)
  rintro name u ⟨a, rfl, hname⟩
  have hdollar : 0 < (a :: ':' :: '$' :: name).countP isSigil :=
    List.countP_pos_iff.2 ⟨'$', by simp, by decide⟩
  rwa [countP_variableAttribute hname]

theorem countP_expandBag (t : Text) :
    (expandBag t).countP isSigil ≤ t.countP isSigil ∧
      (Apart isBlank IsBag t → (expandBag t).countP isSigil < t.countP isSigil) := by
  have hfinds : Cursor.Finds bagEcho? fun text u =>
      (bagAttribute text).countP isSigil < u.countP isSigil := by
    refine finds_bagEcho?.imp ?_
    rintro text u ⟨blanks, gap, inner, rfl, rfl⟩
    exact countP_bagAttribute_lt blanks gap inner
  exact ⟨Cursor.countP_expand_le (hfinds.imp fun _ _ => Nat.le_of_lt) (Cursor.start t), fun h =>
    Cursor.countP_expand_lt (c := Cursor.start t) hfinds fun hm => misses_bagEcho?_iff.1 hm h⟩

theorem countP_expandCalls (directive : StyleCall) (t : Text) :
    (expandCalls directive.name directive.helper t).countP isSigil ≤ t.countP isSigil ∧
      (HoldsCall directive t →
        (expandCalls directive.name directive.helper t).countP isSigil < t.countP isSigil) := by
  have hfinds : Cursor.Finds (call? directive.name) fun arguments u =>
      (callAttribute directive.name directive.helper arguments).countP isSigil <
        u.countP isSigil := by
    refine (finds_call? directive.name).imp ?_
    rintro arguments u rfl
    exact countP_callAttribute_lt directive arguments
  exact ⟨Cursor.countP_expand_le (hfinds.imp fun _ _ => Nat.le_of_lt) (Cursor.start t), fun h =>
    Cursor.countP_expand_lt (c := Cursor.start t) hfinds
      fun hm => (misses_call?_iff directive).1 hm h⟩

theorem countP_expandBindings_le (t : Text) :
    (expandBindings t).countP isSigil ≤ t.countP isSigil := by
  refine Cursor.countP_expand_le (finds_binding?.imp ?_) (Cursor.start t)
  rintro name u ⟨spaces, rfl, -⟩
  exact countP_bindingStart_le spaces name

theorem countP_expand_le (t : Text) : (expand t).countP isSigil ≤ t.countP isSigil :=
  calc (expand t).countP isSigil
    _ ≤ (expandStyles (expandClasses (expandBag (expandVariables t)))).countP isSigil :=
      countP_expandBindings_le _
    _ ≤ (expandClasses (expandBag (expandVariables t))).countP isSigil :=
      (countP_expandCalls .styles _).1
    _ ≤ (expandBag (expandVariables t)).countP isSigil := (countP_expandCalls .classes _).1
    _ ≤ (expandVariables t).countP isSigil := (countP_expandBag _).1
    _ ≤ t.countP isSigil := countP_expandVariables_le t

/-! ## Settled texts -/

/-- No echo of the attribute bag stands at the front or behind a blank, and no call anywhere. -/
structure Settled (t : Text) : Prop where
  no_bag : ¬ Apart isBlank IsBag t
  no_call : ∀ directive, ¬ HoldsCall directive t

theorem settled_of_not_mem (hbrace : '{' ∉ t) (hat : '@' ∉ t) : Settled t where
  no_bag := by
    rintro (⟨u, ⟨gap, inner, -, -, rfl⟩, h⟩ | ⟨a, u, -, ⟨gap, inner, -, -, rfl⟩, h⟩)
    · exact hbrace (h.subset (by simp))
    · exact hbrace (h.subset (by simp))
  no_call := by
    rintro directive ⟨u, ⟨arguments, -, rfl⟩, h⟩
    exact hat (h.subset (by simp))

/-- In a settled text only the bindings are left to write in full. -/
theorem expand_eq_of_settled (h : Settled (expandVariables t)) :
    expand t = expandBindings (expandVariables t) := by
  have hc : expandClasses (expandVariables t) = _ := expandCalls_eq_self (h.no_call .classes)
  have hs : expandStyles (expandVariables t) = _ := expandCalls_eq_self (h.no_call .styles)
  rw [expand, expandBag_eq_self h.no_bag, hc, hs]

theorem expand_expand_of_settled (h : Settled (expand t)) : expand (expand t) = expand t := by
  have hv := expandVariables_eq_self (not_behind_variable_expand t)
  rw [expand_eq_of_settled (hv.symm ▸ h), hv]
  exact expandBindings_eq_self (not_apart_binding_expandBindings _)

/-- If only the variables are in full, the rest of the steps take a sigil away or find nothing. -/
theorem countP_expand_lt (h : ¬ Settled (expandVariables t)) :
    (expand t).countP isSigil < t.countP isSigil := by
  have h₀ := countP_expandVariables_le t
  rw [expand]
  generalize expandVariables t = t' at h h₀ ⊢
  have h₁ := countP_expandBindings_le (expandStyles (expandClasses (expandBag t')))
  have h₂ : (expandStyles (expandClasses (expandBag t'))).countP isSigil ≤ _ :=
    (countP_expandCalls .styles (expandClasses (expandBag t'))).1
  have h₃ : (expandClasses (expandBag t')).countP isSigil ≤ _ :=
    (countP_expandCalls .classes (expandBag t')).1
  by_cases hbag : Apart isBlank IsBag t'
  · have := (countP_expandBag t').2 hbag
    omega
  rw [expandBag_eq_self hbag] at h₁ h₂ h₃ ⊢
  by_cases hclass : HoldsCall .classes t'
  · have : (expandClasses t').countP isSigil < _ :=
      (countP_expandCalls .classes t').2 hclass
    omega
  have hself : expandClasses t' = t' := expandCalls_eq_self hclass
  rw [hself] at h₁ h₂ ⊢
  have hstyle : HoldsCall .styles t' := by
    by_contra hstyle
    refine h ⟨hbag, fun directive => ?_⟩
    cases directive with
    | classes => exact hclass
    | styles => exact hstyle
  have : (expandStyles t').countP isSigil < _ :=
    (countP_expandCalls .styles t').2 hstyle
  omega

/-- A text in full that is not settled loses a sigil. -/
theorem countP_expand_expand_lt (h : ¬ Settled (expand t)) :
    (expand (expand t)).countP isSigil < (expand t).countP isSigil := by
  refine countP_expand_lt ?_
  rwa [expandVariables_eq_self (not_behind_variable_expand t)]

theorem settled_of_expand_eq (h : expand (expand t) = expand t) : Settled (expand t) := by
  by_contra hsettled
  have hlt := countP_expand_expand_lt hsettled
  rw [h] at hlt
  exact Nat.lt_irrefl _ hlt

/-- Every run that changes a text in full takes a sigil away, so there are no more such runs than
sigils. -/
theorem expand_iterate_of_le {k : Nat} (h : (expand t).countP isSigil ≤ k) :
    expand (expand^[k] (expand t)) = expand^[k] (expand t) := by
  induction k generalizing t with
  | zero =>
    refine expand_expand_of_settled (t := t) (by_contra fun hsettled => ?_)
    have hlt := countP_expand_expand_lt hsettled
    omega
  | succ k ih =>
    by_cases hsettled : Settled (expand t)
    · have hfixed := expand_expand_of_settled hsettled
      rw [Function.iterate_fixed hfixed, hfixed]
    · have hlt := countP_expand_expand_lt hsettled
      rw [Function.iterate_succ_apply]
      exact ih (by omega)

/-- **Writing in full twice.** A second run leaves a text in full as it is if and only if neither
an echo of the attribute bag nor a call is left in it; then it has the same attributes. Whatever is
left, the text stays as it is after one run more than it has sigils. -/
theorem expand_expand_eq_iff (t : Text) :
    (expand (expand t) = expand t ↔ Settled (expand t)) ∧
      (Settled (expand t) →
        ∀ reader : AttributeReader, reader.read (expand t) = reader.read t) ∧
      ∀ k, t.countP isSigil ≤ k → expand (expand^[k + 1] t) = expand^[k + 1] t := by
  refine ⟨⟨settled_of_expand_eq, expand_expand_of_settled⟩, fun h reader => ?_, fun k hk => ?_⟩
  · rw [AttributeReader.read, AttributeReader.read, expand_expand_of_settled h]
  · rw [Function.iterate_succ_apply]
    exact expand_iterate_of_le ((countP_expand_le t).trans hk)

theorem read_expand_call :
    Settled (expand " @class([1]) :$b".toList) ∧
      AttributeReader.read ⟨Echo.compile, true⟩ (expand " @class([1]) :$b".toList) =
        AttributeReader.read ⟨Echo.compile, true⟩ " @class([1]) :$b".toList := by
  have h := (expand_expand_eq_iff " @class([1]) :$b".toList).1.1 (by decide)
  exact ⟨h, (expand_expand_eq_iff _).2.1 h _⟩

/-- A call in the arguments of a call of the same directive is left by the first run. The second
one finds it, and its quotes end the value around it. -/
theorem expand_expand_nested_ne :
    expand (expand "@class(@class(a))".toList) ≠ expand "@class(@class(a))".toList ∧
      ((AttributeReader.read ⟨Echo.compile, false⟩ (expand "@class(@class(a))".toList)).toOption.map
          fun attributes => attributes.values.entries) =
        some [("class".toList, "\\Illuminate\\Support\\Arr::toCssClasses(:class=".toList),
          ("Illuminate".toList, "true".toList), ("Support".toList, "true".toList),
          ("Arr::toCssClasses".toList, "true".toList), ("a".toList, "true".toList)] ∧
      ((AttributeReader.read ⟨Echo.compile, false⟩ "@class(@class(a))".toList).toOption.map
          fun attributes => attributes.values.entries) =
        some [("class".toList,
          "\\Illuminate\\Support\\Arr::toCssClasses(@class(a))".toList)] := by
  decide

/-! ## Texts in full -/

/-- No short form is left to write in full. -/
structure InFull (t : Text) : Prop where
  no_variable : ¬ Behind isSpace IsVariable t
  no_binding : ¬ Apart isSpace IsBinding t
  settled : Settled t

theorem expand_eq_self_of_inFull (h : InFull t) : expand t = t := by
  have hv : expandVariables t = t := expandVariables_eq_self h.no_variable
  have hsettled : Settled (expandVariables t) := hv.symm ▸ h.settled
  rw [expand_eq_of_settled hsettled, hv]
  exact expandBindings_eq_self h.no_binding

/-- A text that stays as it is has been written in full by that run, so it holds no variable and no
binding; and it has kept its sigils. -/
theorem inFull_of_expand_eq_self (h : expand t = t) : InFull t := by
  have hvariable : ¬ Behind isSpace IsVariable t := h ▸ not_behind_variable_expand t
  have hbinding : ¬ Apart isSpace IsBinding (expand t) := not_apart_binding_expandBindings _
  rw [h] at hbinding
  refine ⟨hvariable, hbinding, by_contra fun hsettled => ?_⟩
  rw [← expandVariables_eq_self hvariable] at hsettled
  have hlt := countP_expand_lt hsettled
  rw [h] at hlt
  exact Nat.lt_irrefl _ hlt

theorem expand_eq_self_iff : expand t = t ↔ InFull t :=
  ⟨inFull_of_expand_eq_self, expand_eq_self_of_inFull⟩

/-- A binding behind `u` stands apart if `u` is empty or ends in a space. -/
theorem apart_binding_append {name v : Text} (hu : ∀ a ∈ u.getLast?, isSpace a = true)
    (hname : IsRun isAttributeNameChar name) (hcolon : name.head? ≠ some ':') :
    Apart isSpace IsBinding (u ++ ':' :: (name ++ '=' :: v)) := by
  have hbinding : IsBinding (':' :: (name ++ ['='])) := ⟨name, hname, hcolon, rfl⟩
  rcases List.eq_nil_or_concat u with rfl | ⟨u, a, rfl⟩
  · exact Or.inl ⟨_, hbinding, v, by simp⟩
  · exact Or.inr ⟨a, _, hu a (by simp), hbinding, u, v, by simp⟩

/-- **No short binding is left.** In full, no text holds `:$` and a word character behind a space,
or a single colon with a name and an equals sign at its front, at the front of a line or behind a
space. So with no echo of the attribute bag and no call left either, a second run changes nothing;
the texts that a run leaves as they are are those without any short form. -/
theorem expand_ne_short_binding (t : Text) :
    (∀ u a w v, isSpace a = true → isWordChar w = true →
        expand t ≠ u ++ a :: ':' :: '$' :: w :: v) ∧
      (∀ u name v, (∀ a ∈ u.getLast?, a = '\n' ∨ isSpace a = true) →
        IsRun isAttributeNameChar name → name.head? ≠ some ':' →
          expand t ≠ u ++ ':' :: (name ++ '=' :: v)) ∧
      (Settled (expand t) → expand (expand t) = expand t) ∧
      (expand t = t ↔ InFull t) := by
  refine ⟨fun u a w v ha hw h => ?_, fun u name v hu hname hcolon h => ?_,
    expand_expand_of_settled, expand_eq_self_iff⟩
  · refine not_behind_variable_expand t ⟨a, _, ha, ⟨w, hw, rfl⟩, u, v, ?_⟩
    rw [h, List.append_assoc]
    rfl
  · have hspace : ∀ a ∈ u.getLast?, isSpace a = true := by
      intro a ha
      rcases hu a ha with rfl | hs
      · decide
      · exact hs
    have hapart := apart_binding_append (v := v) hspace hname hcolon
    rw [← h] at hapart
    exact not_apart_binding_expandBindings _ hapart

theorem expand_ne_short_binding_call :
    Settled (expand "@class(a)\n:$b :c=1".toList) ∧
      expand (expand "@class(a)\n:$b :c=1".toList) = expand "@class(a)\n:$b :c=1".toList ∧
      ¬ InFull "@class(a)\n:$b :c=1".toList ∧
      expand "@class(a)\n:$b :c=1".toList ≠
        "@class(a)".toList ++ '\n' :: ':' :: '$' :: 'b' :: " :c=1".toList ∧
      expand "@class(a)\n:$b :c=1".toList ≠
        "@class(a)\n:$b ".toList ++ ':' :: (['c'] ++ '=' :: ['1']) := by
  have hsettled : Settled (expand "@class(a)\n:$b :c=1".toList) := settled_of_expand_eq (by decide)
  obtain ⟨hvariable, hbinding, hagain, hfull⟩ :=
    expand_ne_short_binding "@class(a)\n:$b :c=1".toList
  refine ⟨hsettled, hagain hsettled, mt hfull.2 (by decide), ?_, ?_⟩
  · exact hvariable _ '\n' 'b' _ (by decide) (by decide)
  · refine hbinding _ ['c'] _ (fun a ha => ?_) (by decide) (by decide)
    obtain rfl : ' ' = a := by simpa using ha
    exact Or.inr (by decide)

end ComponentTags.Shorthand
