import ComponentTags.Compile.Template
import ComponentTags.Proofs.Quiet
import ComponentTags.Proofs.Shorthand

/-!
# Directives without tags

What stands for a tag in the compiled template has no tag in it, so that a later pass cannot
compile it once more.

1. Attributes without `<` have tokens without it (`not_mem_expand`, `of_token?_eq_some`), and
   they can be read: only text that is neither blank nor has a name is refused (`exists_read`).
2. What is read has keys of ASCII characters and quiet values (`Table.IsQuiet`). This stays so
   when keys are brought to camel case, divided or put in another order.
3. So the directives are quiet, as far as the names of their targets are.
-/

namespace ComponentTags

open Text

/-! ## Writing in full -/

namespace Shorthand

variable {t : Text}

theorem not_mem_expandVariables (ht : '<' ∉ t) : '<' ∉ expandVariables t := by
  intro hm
  rcases Cursor.mem_expand hm with hm | ⟨d, name, n, hd, hi, hx⟩
  · exact ht hm
  · obtain ⟨a, rest, hr, -⟩ := boundVariable?_eq_some_iff.1 hi
    have hn : '<' ∉ name := fun hn => ht (hd.subset (by simp [hr, hn]))
    simp [variableAttribute, hn] at hx

theorem not_mem_expandBag (ht : '<' ∉ t) : '<' ∉ expandBag t := by
  intro hm
  rcases Cursor.mem_expand hm with hm | ⟨d, inner, n, hd, hi, hx⟩
  · exact ht hm
  · obtain ⟨blanks, rest, inner', m, hr, -, -, hb, rfl, -⟩ := bagEcho?_eq_some_iff.1 hi
    obtain ⟨gap, rest', rfl, -⟩ := bag?_eq_some_iff.1 hb
    have hn : '<' ∉ trimEnd isBlank inner' := by
      intro hn
      have hn' := List.mem_reverse.1
        ((List.dropWhile_suffix isBlank).subset (List.mem_reverse.1 hn))
      exact ht (hd.subset (by simp [hr, hn']))
    refine List.not_mem_append (List.not_mem_append (List.not_mem_append ?_ ?_) hn) ?_ hx
    all_goals decide

theorem not_mem_expandCalls {directive helper : Text} (hd : '<' ∉ directive) (hh : '<' ∉ helper)
    (ht : '<' ∉ t) : '<' ∉ expandCalls directive helper t := by
  intro hm
  rcases Cursor.mem_expand hm with hm | ⟨d, arguments, n, hs, hi, hx⟩
  · exact ht hm
  · obtain ⟨rest, hr, -⟩ := call?_eq_some_iff.1 hi
    have hn : '<' ∉ arguments := fun hn => ht (hs.subset (by simp [hr, hn]))
    have hq : '<' ∉ replaceChar '"' ['\x27'] arguments := by
      intro hq
      obtain ⟨b, hb, hq⟩ := List.mem_flatMap.1 hq
      split at hq
      · simp at hq
      · obtain rfl : '<' = b := by simpa using hq
        exact hn hb
    simp [callAttribute, hd, hh, hq] at hx

theorem not_mem_expandBindings (ht : '<' ∉ t) : '<' ∉ expandBindings t := by
  intro hm
  rcases Cursor.mem_expand hm with hm | ⟨d, name, n, hd, hi, hx⟩
  · exact ht hm
  · obtain ⟨spaces, rest, hr, -⟩ := binding?_eq_some_iff.1 hi
    have hn : '<' ∉ name := fun hn => ht (hd.subset (by simp [hr, hn]))
    refine List.not_mem_append (List.not_mem_append ?_ hn) ?_ hx
    all_goals decide

theorem not_mem_expand (ht : '<' ∉ t) : '<' ∉ expand t := by
  unfold expand
  apply not_mem_expandBindings
  apply not_mem_expandCalls (by decide) (by decide)
  apply not_mem_expandCalls (by decide) (by decide)
  exact not_mem_expandBag (not_mem_expandVariables ht)

theorem expand_eq_self (h : ∀ x ∈ expand t, isAttributeNameChar x = false) : expand t = t := by
  -- What is put in for a form has a colon, and so nothing was put in, in the last step first.
  unfold expand at h ⊢
  have h₁ : expandBindings (expandStyles (expandClasses (expandBag (expandVariables t)))) =
      expandStyles (expandClasses (expandBag (expandVariables t))) :=
    Cursor.expand_eq_rest (fun _ _ _ _ => ⟨':', by simp [bindingStart, bindMark], by decide⟩) h
  rw [h₁] at h ⊢
  have h₂ : expandStyles (expandClasses (expandBag (expandVariables t))) =
      expandClasses (expandBag (expandVariables t)) :=
    Cursor.expand_eq_rest (fun _ _ _ _ => ⟨':', by simp [callAttribute], by decide⟩) h
  rw [h₂] at h ⊢
  have h₃ : expandClasses (expandBag (expandVariables t)) = expandBag (expandVariables t) :=
    Cursor.expand_eq_rest (fun _ _ _ _ => ⟨':', by simp [callAttribute], by decide⟩) h
  rw [h₃] at h ⊢
  have hcolon : ':' ∈ " :attributes=\"".toList := by decide
  have h₄ : expandBag (expandVariables t) = expandVariables t :=
    Cursor.expand_eq_rest (fun _ inner _ _ => ⟨':', List.mem_append_left _
      (List.mem_append_left _ (List.mem_append_left _ hcolon)), by decide⟩) h
  rw [h₄] at h ⊢
  exact Cursor.expand_eq_rest (fun _ _ _ _ => ⟨':', by simp [variableAttribute], by decide⟩) h

end Shorthand

/-! ## Tokens -/

namespace Token

variable {c : Cursor} {token : Token} {n : Nat}

theorem of_token?_eq_some (h : token? c = some (token, n)) :
    (∀ x ∈ token.name, isAttributeNameChar x = true) ∧
      ∀ v ∈ token.value, v <:+: c.rest := by
  have hname : ∀ x ∈ c.rest.takeWhile isAttributeNameChar, isAttributeNameChar x = true :=
    fun x hx => of_mem_takeWhile hx
  unfold token? at h
  simp only at h
  split at h
  · simp at h
  · split at h
    · next rest hr =>
      split at h
      · next value hv =>
        obtain ⟨rfl, -⟩ := Prod.mk.inj (Option.some.inj h)
        refine ⟨hname, fun v hm => ?_⟩
        obtain rfl : value = v := by simpa using hm
        have hrest : rest <:+ c.rest :=
          (List.suffix_cons '=' rest).trans (hr ▸ List.drop_suffix _ c.rest)
        exact (prefix_of_value? hv).isInfix.trans hrest.isInfix
      · obtain ⟨rfl, -⟩ := Prod.mk.inj (Option.some.inj h)
        exact ⟨hname, by simp⟩
    · obtain ⟨rfl, -⟩ := Prod.mk.inj (Option.some.inj h)
      exact ⟨hname, by simp⟩

theorem not_name_of_items_eq_nil (h : Piece.items (c.pieces token?) = []) :
    ∀ x ∈ c.rest, isAttributeNameChar x = false := by
  induction c using Cursor.pieces_induction token? with
  | nil c hr => simp [hr]
  | plain c a rest hr hh ih =>
    rw [Cursor.pieces_plain hr hh, Piece.items] at h
    have ih := ih h
    rw [Cursor.rest_next, hr] at ih
    rw [hr]
    intro x hx
    rcases List.mem_cons.1 hx with rfl | hx
    · -- A name character at the front would begin a token.
      by_cases ha : isAttributeNameChar x = true
      · unfold token? at hh
        simp only [hr, List.takeWhile_cons, ha] at hh
        simp only [if_true, reduceCtorEq, if_false] at hh
        split at hh
        · split at hh <;> simp at hh
        · simp at hh
      · simpa using ha
    · exact ih x hx
  | found c token n hr hh _ =>
    rw [Cursor.pieces_of_hit hr hh] at h
    simp [Piece.items] at h

end Token

/-! ## Tables -/

/-- Every character is one of ASCII and not `<`. -/
def Text.IsPlain (t : Text) : Prop :=
  ∀ x ∈ t, x ≠ '<' ∧ x.toNat < 0x80

instance (t : Text) : Decidable (IsPlain t) :=
  List.decidableBAll (fun x => x ≠ '<' ∧ x.toNat < 0x80) t

theorem Text.IsPlain.not_mem {t : Text} (h : IsPlain t) : '<' ∉ t :=
  fun hm => (h _ hm).1 rfl

/-- The keys are plain and the values have no tags in them. -/
def Table.IsQuiet (t : Table Text) : Prop :=
  ∀ e ∈ t.entries, IsPlain e.1 ∧ Quiet e.2

namespace Table

variable {t : Table Text} {key value : Text} {entries : List (Text × Text)}

theorem isQuiet_empty : (empty : Table Text).IsQuiet := by
  intro e he
  simp [empty] at he

theorem IsQuiet.put (ht : t.IsQuiet) (hk : IsPlain key) (hv : Quiet value) :
    (t.put key value).IsQuiet := by
  intro e he
  rcases Entries.mem_put he with rfl | he
  · exact ⟨hk, hv⟩
  · exact ht e he

theorem IsQuiet.putAll (ht : t.IsQuiet) (he : ∀ e ∈ entries, IsPlain e.1 ∧ Quiet e.2) :
    (t.putAll entries).IsQuiet := by
  unfold Table.putAll
  induction entries generalizing t with
  | nil => exact ht
  | cons e rest ih =>
    have h := he e (by simp)
    exact ih (ht.put h.1 h.2) fun e' he' => he e' (by simp [he'])

theorem isQuiet_ofList (he : ∀ e ∈ entries, IsPlain e.1 ∧ Quiet e.2) : (ofList entries).IsQuiet :=
  isQuiet_empty.putAll he

theorem IsQuiet.filter (ht : t.IsQuiet) (p : Text → Text → Bool) : (t.filter p).IsQuiet :=
  fun e he => ht e (List.mem_filter.1 he).1

end Table

namespace AttributeReader

variable {attributes : Attributes} {token : Token} {t : Text}

theorem mem_of_mem_unquoted {x : Char} (h : x ∈ unquoted t) : x ∈ t := by
  unfold unquoted at h
  split at h
  · exact List.mem_cons_of_mem _ ((List.dropLast_prefix _).subset h)
  · exact List.mem_cons_of_mem _ ((List.dropLast_prefix _).subset h)
  · exact h

theorem mem_of_mem_keyOf {x : Char} (h : x ∈ keyOf t) : x ∈ t := by
  unfold keyOf at h
  split at h
  · exact List.mem_cons_of_mem _ h
  · exact h

theorem isPlain_of_name (h : ∀ x ∈ t, isAttributeNameChar x = true) : IsPlain t := by
  intro x hx
  have := toNat_of_isAttributeNameChar (h x hx)
  refine ⟨?_, by omega⟩
  rintro rfl
  exact absurd (h _ hx) (by decide)

/-- A token without `<` keeps the attributes quiet. -/
theorem isQuiet_addToken (ha : attributes.values.IsQuiet)
    (hname : ∀ x ∈ token.name, isAttributeNameChar x = true)
    (hvalue : ∀ v ∈ token.value, '<' ∉ v) :
    (addToken Echo.compile attributes token).values.IsQuiet := by
  have hkey : ∀ name : Text, (∀ x ∈ name, x ∈ token.name) → IsPlain (keyOf name) :=
    fun name hsub => isPlain_of_name fun x hx => hname x (hsub x (mem_of_mem_keyOf hx))
  have hbound : ∀ name, Shorthand.bindMark.isPrefixOf? token.name = some name →
      IsPlain (keyOf name) := by
    intro name hn
    rw [List.isPrefixOf?_eq_some_iff_append_eq] at hn
    exact hkey name fun x hx => by simp [← hn, hx]
  have hquiet : ∀ v, token.value = some v → Quiet (unquoted v) :=
    fun v hv => quiet_of_not_mem fun hm => hvalue v hv (mem_of_mem_unquoted hm)
  have htrue : Quiet trueValue := by decide
  unfold addToken
  split
  · next name hn _ => exact ha.put (hbound name hn) htrue
  · next name v hn hv => exact ha.put (hbound name hn) (hquiet v hv)
  · exact ha.put (hkey _ fun x hx => hx) htrue
  · next v _ hv => exact ha.put (hkey _ fun x hx => hx) (quiet_literalValue (hquiet v hv))

/-- **Reading.** A text without `<` that has a name, or only blanks, can be read, and what is
read is quiet. -/
theorem exists_read {reader : AttributeReader} (hecho : reader.echo = Echo.compile)
    (ht : '<' ∉ t)
    (hname : (∃ x ∈ t, isAttributeNameChar x = true) ∨ ∀ x ∈ t, isBlank x = true) :
    ∃ attributes, reader.read t = .ok attributes ∧ attributes.values.IsQuiet := by
  have htokens : ∀ token ∈ Token.all (Shorthand.expand t),
      (∀ x ∈ token.name, isAttributeNameChar x = true) ∧ ∀ v ∈ token.value, '<' ∉ v := by
    intro token hm
    obtain ⟨d, n, hd, hi⟩ := Cursor.exists_hit_of_mem_items hm
    obtain ⟨h₁, h₂⟩ := Token.of_token?_eq_some hi
    exact ⟨h₁, fun v hv hx => Shorthand.not_mem_expand ht (hd.subset ((h₂ v hv).subset hx))⟩
  have hfold : ∀ (tokens : List Token) (attributes : Attributes), attributes.values.IsQuiet →
      (∀ token ∈ tokens, (∀ x ∈ token.name, isAttributeNameChar x = true) ∧
        ∀ v ∈ token.value, '<' ∉ v) →
      (tokens.foldl (addToken Echo.compile) attributes).values.IsQuiet := by
    intro tokens
    induction tokens with
    | nil => exact fun _ ha _ => ha
    | cons token tokens ih =>
      intro attributes ha h
      have h₀ := h token (by simp)
      exact ih _ (isQuiet_addToken ha h₀.1 h₀.2) fun token' h' => h token' (by simp [h'])
  unfold read
  simp only [hecho]
  split
  · next hnil =>
    -- Without tokens the text was not rewritten, and it has no names.
    refine ⟨Attributes.empty, ?_, Table.isQuiet_empty⟩
    have hno := Token.not_name_of_items_eq_nil hnil
    have hself := Shorthand.expand_eq_self hno
    have hblank : (Shorthand.expand t).all isBlank = true := by
      rw [hself, List.all_eq_true]
      rcases hname with ⟨x, hx, hn⟩ | hb
      · rw [hno x (by rw [← hself] at hx; exact hx)] at hn
        simp at hn
      · exact hb
    simp [hblank]
  · exact ⟨_, rfl, hfold _ _ Table.isQuiet_empty htokens⟩

end AttributeReader

/-! ## Names in camel case -/

namespace Name

variable {t : Text} {x : Char}

theorem of_mem_splitOnP {p : Char → Bool} {word : Text} (hw : word ∈ t.splitOnP p)
    (hx : x ∈ word) : x ∈ t ∧ p x = false := by
  induction t generalizing word with
  | nil =>
    rw [List.splitOnP_nil, List.mem_singleton] at hw
    simp [hw] at hx
  | cons a t ih =>
    have hcons : x ∈ t ∧ p x = false → x ∈ a :: t ∧ p x = false :=
      fun h => ⟨List.mem_cons_of_mem a h.1, h.2⟩
    rw [List.splitOnP_cons_eq_if_modifyHead] at hw
    split at hw
    · rcases List.mem_cons.1 hw with rfl | hw
      · simp at hx
      · exact hcons (ih hw hx)
    · next ha =>
      cases hs : t.splitOnP p with
      | nil => simp [hs] at hw
      | cons first rest =>
        rw [hs, List.modifyHead_cons, List.mem_cons] at hw
        rcases hw with rfl | hw
        · rcases List.mem_cons.1 hx with rfl | hx
          · exact ⟨by simp, by simpa using ha⟩
          · exact hcons (ih (by simp [hs]) hx)
        · exact hcons (ih (by simp [hs, hw]) hx)

theorem isPlain_case (h : x ≠ '<' ∧ x.toNat < 0x80) :
    IsPlain [x.toUpper] ∧ IsPlain [x.toLower] := by
  have hall : ∀ n < 0x80, Char.ofNat n ≠ '<' →
      IsPlain [(Char.ofNat n).toUpper] ∧ IsPlain [(Char.ofNat n).toLower] := by
    decide
  have := hall x.toNat h.2
  rw [Char.ofNat_toNat] at this
  exact this h.1

section Class

variable {p : Char → Prop} (hp : ∀ x, p x → x.toNat < 0x80 ∧ p x.toUpper ∧ p x.toLower)

include hp

theorem forall_mem_studlyCase (h : ∀ x ∈ t, isWordBreak x = false → p x) :
    ∀ x ∈ studlyCase t, p x := by
  have hupper : ∀ word : Text, (∀ x ∈ word, p x) → ∀ x ∈ upperFirst word, p x := by
    intro word hw
    cases word with
    | nil => exact hw
    | cons a word =>
      have ha := hp a (hw a (by simp))
      rw [upperFirst, upperChar, if_pos ha.1]
      intro x hx
      rcases List.mem_append.1 hx with hx | hx
      · exact List.mem_singleton.1 hx ▸ ha.2.1
      · exact hw x (by simp [hx])
  intro x hx
  obtain ⟨word, hw, hx⟩ := List.mem_flatMap.1 hx
  refine hupper word (fun y hy => ?_) x hx
  exact h y (of_mem_splitOnP hw hy).1 (of_mem_splitOnP hw hy).2

/-- Camel case keeps to a class of ASCII characters that has each of them in both cases. What stands
between words need not be in it. -/
theorem forall_mem_camelCase (h : ∀ x ∈ t, isWordBreak x = false → p x) :
    ∀ x ∈ camelCase t, p x := by
  have hstudly := forall_mem_studlyCase hp h
  unfold camelCase
  cases hs : studlyCase t with
  | nil => intro x hx; simp [lowerFirst] at hx
  | cons a rest =>
    rw [hs] at hstudly
    have ha := hp a (hstudly a (by simp))
    rw [lowerFirst, lowerChar, if_pos ha.1]
    intro x hx
    rcases List.mem_append.1 hx with hx | hx
    · exact List.mem_singleton.1 hx ▸ ha.2.2
    · exact hstudly x (by simp [hx])

end Class

theorem isPlain_camelCase (h : IsPlain t) : IsPlain (camelCase t) :=
  forall_mem_camelCase (fun x hx => ⟨hx.2, (isPlain_case hx).1 _ (by simp),
    (isPlain_case hx).2 _ (by simp)⟩) fun x hx _ => h x hx

end Name

/-! ## Directives -/

theorem Text.quiet_joinWith {mark : Text} {texts : List Text} (hm : Quiet mark)
    (h : ∀ t ∈ texts, Quiet t) : Quiet (joinWith mark texts) := by
  unfold joinWith
  induction texts with
  | nil => trivial
  | cons t texts ih =>
    cases texts with
    | nil => simpa using h t (by simp)
    | cons t' texts =>
      rw [List.intercalate_cons_cons]
      exact ((h t (by simp)).append hm).append (ih fun s hs => h s (by simp [hs]))

theorem quiet_sanitizerCall {value : Text} (h : Quiet value) :
    Quiet (Directive.sanitizerCall value) := by
  refine Quiet.append (Quiet.append (Quiet.append ?_ ?_) h) ?_
  all_goals decide

theorem quiet_arrayEntries {values : Table Text} (h : values.IsQuiet) (sanitizes : Text → Bool) :
    Quiet (arrayEntries sanitizes values) := by
  refine quiet_joinWith (by decide) fun t ht => ?_
  obtain ⟨e, he, rfl⟩ := List.mem_map.1 ht
  obtain ⟨hk, hv⟩ := h e he
  refine Quiet.append (Quiet.append (Quiet.append (by decide) (quiet_of_not_mem hk.not_mem))
    (by decide)) ?_
  split
  · exact quiet_sanitizerCall hv
  · exact hv

theorem quiet_arrayOf {entries : Text} (h : Quiet entries) : Quiet (arrayOf entries) :=
  (Quiet.append (by decide) h).append (by decide)

namespace Compiler

variable {attributes : Attributes} {tag : Text} {target : Target} {classes : Classes}

theorem isQuiet_anonymousParameters (ha : attributes.values.IsQuiet) (htag : '<' ∉ tag)
    (hname : '<' ∉ target.name) : (anonymousParameters tag target attributes).IsQuiet := by
  have hkeys : IsPlain "view".toList ∧ IsPlain "data".toList := by decide
  refine Table.isQuiet_ofList fun e he => ?_
  simp only [List.mem_cons, List.not_mem_nil, or_false] at he
  rcases he with rfl | rfl
  · refine ⟨hkeys.1, ?_⟩
    dsimp only
    split
    · exact (Quiet.append (by decide) (quiet_of_not_mem htag)).append (by decide)
    · exact (Quiet.append (by decide) (quiet_of_not_mem hname)).append (by decide)
  · exact ⟨hkeys.2, quiet_arrayOf (quiet_arrayEntries ha _)⟩

theorem isQuiet_classParameters (ha : attributes.values.IsQuiet) (className : Text) :
    (classParameters classes className attributes).IsQuiet := by
  have hdivide : (classes.divide className attributes.values).1.IsQuiet ∧
      (classes.divide className attributes.values).2.IsQuiet := by
    unfold Classes.divide
    split
    · exact ⟨ha.filter _, ha.filter _⟩
    · exact ⟨ha, ha⟩
  refine Table.IsQuiet.put (Table.isQuiet_ofList fun e he => ?_) (by decide)
    (quiet_arrayOf (quiet_arrayEntries hdivide.2 _))
  obtain ⟨e', he', rfl⟩ := List.mem_map.1 he
  obtain ⟨hk, hv⟩ := hdivide.1 e' he'
  exact ⟨Name.isPlain_camelCase hk, hv⟩

theorem quiet_component {className parameters : Text} (hc : Quiet className)
    (hp : Quiet parameters) : Quiet (Directive.component className parameters) := by
  refine Quiet.append (Quiet.append (Quiet.append (Quiet.append ?_ hc) ?_) hp) ?_
  all_goals decide

theorem quiet_directiveFor (ha : attributes.values.IsQuiet) (htag : '<' ∉ tag)
    (hname : '<' ∉ target.name) : Quiet (directiveFor classes tag target attributes) := by
  unfold directiveFor
  split
  · exact quiet_component (quiet_of_not_mem hname)
      (quiet_arrayEntries (isQuiet_classParameters ha _) _)
  · exact quiet_component (by decide)
      (quiet_arrayEntries (isQuiet_anonymousParameters ha htag hname) _)

theorem isQuiet_liveKeys {values : Table Text} (h : values.IsQuiet) :
    (liveKeys values).IsQuiet := by
  have hnamed : ∀ e ∈ (Table.ofList (values.entries.map fun e =>
      (if e.1.contains '_' then e.1 else Name.camelCase e.1, e.2))).entries,
      IsPlain e.1 ∧ Quiet e.2 := by
    refine Table.isQuiet_ofList fun e he => ?_
    obtain ⟨e', he', rfl⟩ := List.mem_map.1 he
    obtain ⟨hk, hv⟩ := h e' he'
    refine ⟨?_, hv⟩
    dsimp only
    split
    · exact hk
    · exact Name.isPlain_camelCase hk
  refine Table.IsQuiet.putAll (Table.isQuiet_ofList fun e he => ?_) hnamed
  obtain ⟨e', he', rfl⟩ := List.mem_map.1 he
  obtain ⟨hk, hv⟩ := hnamed e' (List.mem_filter.1 he').1
  exact ⟨Name.isPlain_camelCase hk, hv⟩

theorem quiet_printed {className parameters : Text} (hc : Quiet className)
    (hp : Quiet parameters) : Quiet (Directive.printed className parameters) := by
  refine Quiet.append (Quiet.append (Quiet.append (Quiet.append ?_ hc) ?_) hp) ?_
  all_goals decide

theorem quiet_slot {name entries : Text} (hn : Quiet name) (he : Quiet entries) :
    Quiet (Directive.slot name entries) := by
  refine Quiet.append (Quiet.append (Quiet.append (Quiet.append ?_ hn) ?_) he) ?_
  all_goals decide

/-- The name of a slot has no tags in it, if it is plain behind a colon and without `<` in an
attribute. -/
theorem quiet_slotExpression {m : Tag} (hi : IsPlain m.inlineName) (ha : '<' ∉ m.nameAttribute) :
    Quiet (slotExpression m) := by
  have hname : Quiet (if m.inlineName ≠ [] ∧ (unquoted m.inlineName).contains '-' then
      Name.camelCase (unquoted m.inlineName) else unquoted m.inlineName) := by
    have hplain : IsPlain (unquoted m.inlineName) :=
      fun x hx => hi x (AttributeReader.mem_of_mem_unquoted hx)
    split
    · exact quiet_of_not_mem (Name.isPlain_camelCase hplain).not_mem
    · exact quiet_of_not_mem hplain.not_mem
  have hattr : Quiet (unquoted m.nameAttribute) :=
    quiet_of_not_mem fun hx => ha (AttributeReader.mem_of_mem_unquoted hx)
  have hwrap : ∀ t : Text, Quiet t →
      Quiet (if m.nameBound then t else ['\x27'] ++ t ++ ['\x27']) := by
    intro t ht
    split
    · exact ht
    · exact (Quiet.append (by decide) ht).append (by decide)
  unfold slotExpression
  by_cases hn : m.inlineName = []
  · simp only [hn, if_true, ne_eq, not_true_eq_false, false_and, if_false]
    exact hwrap _ hattr
  · simp only [hn, if_false]
    exact hwrap _ hname

end Compiler

end ComponentTags
