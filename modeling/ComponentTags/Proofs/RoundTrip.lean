import ComponentTags.Attribute.Parse
import ComponentTags.Echo
import ComponentTags.Proofs.Expansion

/-!
# Reading undoes printing

The attributes that are read from a print of attributes are those that were printed: every name
once and in its place, with the expression that the attribute stands for.

1. A literal value without marks is only put in apostrophes (`literalValue_eq`).
2. The tokens of the print in full are those of its attributes (`all_printed`).
3. Each token puts its own attribute behind the others (`foldl_addToken`).
-/

namespace ComponentTags

open Text

/-! ## Literal values -/

theorem Echo.compileForm_of_not_infix {kind : Echo} {t : Text} (h : ¬ kind.opening <:+: t) :
    kind.compileForm t = t := by
  have hafter : ∀ kept s, s <:+ t → kind.writtenAfter? kept s = none := by
    intro kept s hs
    unfold writtenAfter?
    split
    · rfl
    · next inner hi =>
      rw [List.isPrefixOf?_eq_some_iff_append_eq] at hi
      exact absurd ((List.prefix_append _ inner).isInfix.trans (hi ▸ hs.isInfix)) h
  refine Cursor.expand_pieces_of_none _ fun d hd => ?_
  unfold written?
  split
  · next rest hr =>
    rw [hafter true rest (((List.suffix_cons '@' rest).trans (hr ▸ List.suffix_rfl)).trans hd)]
    rfl
  · exact hafter false _ hd

theorem Segment.escapeQuotes_of_not_infix {t : Text} (h : ¬ "<?".toList <:+: t) :
    escapeQuotes t = replaceChar '\x27' ['\\', '\x27'] t := by
  have hnone : ∀ d : Cursor, d.rest <:+ (Cursor.start t).rest → code? d = none := by
    intro d hd
    have ho : openingLength? d.rest = none := by
      unfold openingLength?
      split
      · next rest hr =>
        have hp : "<?".toList <+: d.rest := hr ▸ ⟨_, rfl⟩
        exact absurd (hp.isInfix.trans hd.isInfix) h
      · next rest hr =>
        have hp : "<?".toList <+: d.rest := hr ▸ ⟨_, rfl⟩
        exact absurd (hp.isInfix.trans hd.isInfix) h
      · rfl
    rw [code?, ho]
  rw [escapeQuotes, all, flatMap_escaped_ofPieces, Cursor.pieces_eq_map_plain hnone,
    List.flatMap_map]
  show _ = t.flatMap _
  congr 1
  funext c
  simp [escapedPiece, replaceChar]

theorem Text.replaceAll_of_not_infix {old new t : Text} (h : ¬ old <:+: t) :
    replaceAll old new t = t := by
  refine Cursor.expand_pieces_of_none _ fun d hd => ?_
  rw [literal, if_neg]
  intro hp
  exact h ((List.isPrefixOf_iff_prefix.1 hp).isInfix.trans hd.isInfix)

/-- Escaping apostrophes brings no text with it that has neither a backslash nor an apostrophe. -/
theorem Text.not_infix_escaped {mark t : Text} (h₁ : '\\' ∉ mark) (h₂ : '\x27' ∉ mark)
    (h : ¬ mark <:+: t) : ¬ mark <:+: replaceChar '\x27' ['\\', '\x27'] t := by
  refine fun hm => h (infix_of_infix_replaceChar (by simp) (fun x hx => ?_) hm)
  rcases List.mem_cons.1 hx with rfl | hx
  · exact h₁
  · obtain rfl : x = '\x27' := by simpa using hx
    exact h₂

namespace AttributeReader

variable {name value : Text} {attributes : Attributes}

/-- Echos and code are not there to be compiled, and so only apostrophes and ends of statements
change. -/
theorem literalBody_eq (hregular : ¬ ['{', '{'] <:+: value) (hraw : ¬ ['{', '!', '!'] <:+: value)
    (hcode : ¬ "<?".toList <:+: value) :
    literalBody Echo.compile value =
      replaceAll "; ?>".toList ['.', '\x27'] (replaceChar '\x27' ['\\', '\x27'] value) := by
  have hescaped : ¬ ['{', '{', '{'] <:+: value :=
    fun h => hregular (List.IsInfix.trans ⟨[], ['{'], rfl⟩ h)
  have hecho : Echo.compile value = value := by
    show Echo.compileForm .regular (Echo.compileForm .escaped (Echo.compileForm .raw value)) = value
    have h₁ : Echo.compileForm .raw value = value := Echo.compileForm_of_not_infix hraw
    have h₂ : Echo.compileForm .escaped value = value := Echo.compileForm_of_not_infix hescaped
    rw [h₁, h₂]
    exact Echo.compileForm_of_not_infix hregular
  have hphp : ¬ "<?php echo ".toList <:+: value :=
    fun h => hcode (List.IsInfix.trans ⟨[], "php echo ".toList, by decide⟩ h)
  rw [literalBody, hecho, Segment.escapeQuotes_of_not_infix hcode,
    replaceAll_of_not_infix (not_infix_escaped (by decide) (by decide) hphp)]

/-- A literal without marks is only put in apostrophes. -/
theorem literalValue_eq (h : (Written.literal name value).IsUnmarked) :
    literalValue Echo.compile value = (Written.literal name value).expression := by
  obtain ⟨hu, hcode, hend⟩ := h
  rw [literalValue, literalBody_eq (hu.no_mark _ (by simp [Written.marks]))
      (hu.no_mark _ (by simp [Written.marks])) hcode,
    replaceAll_of_not_infix (not_infix_escaped (by decide) (by decide) hend)]
  rfl

end AttributeReader

/-! ## Tokens -/

namespace Token

variable {c : Cursor} {name value v : Text}

theorem token?_quoted (hname : IsRun isAttributeNameChar name) (hq : '"' ∉ value)
    (hv : value = [] → Stops isBareChar v)
    (hr : c.rest = name ++ Written.quotedValue value ++ v) :
    token? c = some (⟨name, some ('"' :: value ++ ['"'])⟩,
      (name ++ Written.quotedValue value).length) := by
  have hr' : c.rest = name ++ ('=' :: ('"' :: (value ++ ['"']) ++ v)) := by
    rw [hr]
    simp [Written.quotedValue]
  rw [token?_of_value? hname (value?_quoted hq hv) hr']
  simp [Written.quotedValue]
  omega

theorem token?_flag (hname : IsRun isAttributeNameChar name) (hv : Stops isAttributeNameChar v)
    (heq : v.head? ≠ some '=') (hr : c.rest = name ++ v) :
    token? c = some (⟨name, none⟩, name.length) := by
  have ht : c.rest.takeWhile isAttributeNameChar = name := by
    rw [hr]
    exact takeWhile_append hname.2 hv
  have hd : c.rest.drop name.length = v := by rw [hr, List.drop_left]
  simp only [token?, ht, hname.1, if_false, hd]
  split
  · exact absurd rfl heq
  · rfl

end Token

namespace Spaced

/-- The token that the attribute in full is read as. -/
def token (i : Spaced) : Token :=
  match i.written with
  | .literal name value => ⟨name, some ('"' :: value ++ ['"'])⟩
  | .bound name value => ⟨Shorthand.bindMark ++ name, some ('"' :: value ++ ['"'])⟩
  | w => ⟨w.name, none⟩

variable {i : Spaced} {c : Cursor} {name value v : Text}

/-- The name and value of an attribute in full are one token. -/
theorem exists_token? (i : Spaced) : ∃ spaces body, i.full.fullText = spaces ++ body ∧
    (∀ x ∈ spaces, isSpace x = true) ∧ body ≠ [] ∧
    ∀ (c : Cursor) (v : Text), Follows v → c.rest = body ++ v →
      Token.token? c = some (i.full.token, body.length) := by
  have hp := i.full.proper
  rcases i.full_written_cases with ⟨name, value, h⟩ | ⟨name, value, h⟩ | ⟨name, h⟩
  · rw [h] at hp
    refine ⟨i.full.spaces, name ++ Written.quotedValue value, ?_, i.full.isRun_spaces.2, ?_, ?_⟩
    · simp [fullText, h, text, Written.text]
    · simp [hp.1.1]
    · intro c v hv hr
      rw [token, h]
      exact Token.token?_quoted (Written.isRun_attributeName hp.1) hp.2
        (fun _ => hv.stops_isBareChar) hr
  · rw [h] at hp
    refine ⟨[' '], Shorthand.bindMark ++ name ++ Written.quotedValue value, ?_,
      forall_mem_of_all (by decide), ?_, ?_⟩
    · simp [fullText, h]
    · simp [hp.1.1]
    · intro c v hv hr
      rw [token, h]
      exact Token.token?_quoted (Written.isRun_bindMark hp.1) hp.2
        (fun _ => hv.stops_isBareChar) hr
  · rw [h] at hp
    refine ⟨i.full.spaces, name, ?_, i.full.isRun_spaces.2, hp.1, ?_⟩
    · simp [fullText, h, text, Written.text]
    · intro c v hv hr
      rw [token, h]
      refine Token.token?_flag (Written.isRun_attributeName hp) (hv.stops fun _ h => h) ?_ hr
      exact fun h => absurd (hv '=' h) (by decide)

theorem items_token (hv : Follows v) (hr : c.rest = i.full.fullText ++ v) :
    Piece.items (c.pieces Token.token?) =
      i.full.token :: Piece.items ((c.advance i.full.fullText.length).pieces Token.token?) := by
  obtain ⟨spaces, body, ht, hs, hne, hhit⟩ := i.exists_token?
  have hr₁ : c.rest = spaces ++ (body ++ v) := by rw [hr, ht, List.append_assoc]
  have hr₂ := Cursor.rest_advance_append hr₁
  have hmiss : c.Misses Token.token? spaces := by
    refine Cursor.misses_of_suffix hr₁ fun s d hsuf hne hd _ => ?_
    obtain ⟨x, s, rfl⟩ := List.exists_cons_of_ne_nil hne
    have hx : isAttributeNameChar x = false := by
      by_cases h : isAttributeNameChar x = true
      · have hspace := isSpace_of_isAttributeNameChar h
        rw [hs x (hsuf.subset (by simp))] at hspace
        simp at hspace
      · simpa using h
    exact Token.token?_eq_none hd hx
  rw [Cursor.pieces_append_of_misses hr₁ hmiss, Piece.items_plain_append,
    Cursor.pieces_append_of_hit hr₂ hne (hhit _ v hv hr₂), Piece.items, Cursor.advance_advance,
    ← List.length_append, ← ht]

theorem exists_fullText_eq_cons (i : Spaced) :
    ∃ a t, i.full.fullText = a :: t ∧ isSpace a = true := by
  unfold fullText
  split
  · exact ⟨_, _, rfl, by decide⟩
  · exact i.full.exists_text_eq_cons

theorem all_printed (items : List Spaced) :
    Token.all (Shorthand.expand (printed items)) = items.map fun i => i.full.token := by
  have hf : ∀ l, l <:+ items → Follows (l.flatMap fun i => i.full.fullText) := by
    intro l _ x hx
    cases l with
    | nil => simp at hx
    | cons i l =>
      obtain ⟨a, t, ht, ha⟩ := i.exists_fullText_eq_cons
      obtain rfl : a = x := by simpa [ht] using hx
      exact ha
  rw [expand_printed_eq]
  exact Cursor.items_pieces_flatMap (fun i _ c v hv hr => items_token hv hr) hf rfl

/-! ## Attributes -/

theorem isPrefixOf?_bindMark_eq_none (h : ':' ∉ name) :
    Shorthand.bindMark.isPrefixOf? name = none := by
  cases hm : Shorthand.bindMark.isPrefixOf? name with
  | none => rfl
  | some rest =>
    rw [List.isPrefixOf?_eq_some_iff_append_eq] at hm
    have : ':' ∈ Shorthand.bindMark := by decide
    exact absurd (by simp [← hm, this]) h

theorem keyOf_of_not_mem (h : ':' ∉ name) : AttributeReader.keyOf name = name := by
  unfold AttributeReader.keyOf
  split
  · simp at h
  · rfl

/-- A token puts the attribute that was printed. -/
theorem addToken_token (attributes : Attributes) (i : Spaced) :
    AttributeReader.addToken Echo.compile attributes i.full.token =
      if i.written.isLiteral then attributes.putLiteral i.written.name i.written.expression
      else attributes.putBound i.written.name i.written.name i.written.expression := by
  obtain ⟨hname, hexpr, hlit⟩ := i.full_written
  rw [← hname, ← hexpr, ← hlit]
  have hp := i.full.proper
  have hu := i.full.unmarked
  rcases i.full_written_cases with ⟨name, value, h⟩ | ⟨name, value, h⟩ | ⟨name, h⟩
  · rw [h] at hp hu
    have hc : ':' ∉ name := Written.not_mem_of_isRun hp.1 (by decide)
    have hv : unquoted ('"' :: value ++ ['"']) = value := by
      show (value ++ ['"']).dropLast = value
      simp
    rw [token, h]
    simp only [AttributeReader.addToken, isPrefixOf?_bindMark_eq_none hc, keyOf_of_not_mem hc, hv,
      AttributeReader.literalValue_eq hu]
    rfl
  · rw [h] at hp
    have hc : ':' ∉ name := Written.not_mem_of_isRun hp.1 (by decide)
    have hm : Shorthand.bindMark.isPrefixOf? (Shorthand.bindMark ++ name) = some name :=
      List.isPrefixOf?_eq_some_iff_append_eq.2 rfl
    have hv : unquoted ('"' :: value ++ ['"']) = value := by
      show (value ++ ['"']).dropLast = value
      simp
    rw [token, h]
    simp only [AttributeReader.addToken, hm, keyOf_of_not_mem hc, hv]
    rfl
  · rw [h] at hp
    have hc : ':' ∉ name := Written.not_mem_of_isRun hp (by decide)
    have ht : i.full.token = ⟨name, none⟩ := by rw [token, h]; rfl
    have hname : (Written.flag name).name = name := rfl
    rw [ht, h, hname]
    simp only [AttributeReader.addToken, isPrefixOf?_bindMark_eq_none hc, keyOf_of_not_mem hc]
    exact (if_neg (by simp [Written.isLiteral])).symm

theorem addToken_of_not_mem {attributes : Attributes} {i : Spaced}
    (hn : i.written.name ∉ attributes.values.keys) (hb : i.written.name ∉ attributes.bound) :
    (AttributeReader.addToken Echo.compile attributes i.full.token).values.entries =
        attributes.values.entries ++ [(i.written.name, i.written.expression)] ∧
      (AttributeReader.addToken Echo.compile attributes i.full.token).bound =
        attributes.bound ++ if i.written.isLiteral then [] else [i.written.name] := by
  have hput := Entries.put_of_not_mem hn i.written.expression
  rw [addToken_token]
  split
  · next h => exact ⟨hput, by simp [Attributes.putLiteral]⟩
  · next h => exact ⟨hput, by simp [Attributes.putBound, hb]⟩

/-- As the fold goes on, the names that are there and those to come stay apart. -/
theorem foldl_addToken (items : List Spaced) (attributes : Attributes)
    (hnew : (attributes.values.keys ++ items.map fun i => i.written.name).Nodup)
    (hbound : ∀ name ∈ attributes.bound, name ∈ attributes.values.keys) :
    ((items.map fun i => i.full.token).foldl (AttributeReader.addToken Echo.compile)
        attributes).values.entries =
      attributes.values.entries ++ items.map (fun i => (i.written.name, i.written.expression)) ∧
    ((items.map fun i => i.full.token).foldl (AttributeReader.addToken Echo.compile)
        attributes).bound =
      attributes.bound ++
        (items.filter fun i => !i.written.isLiteral).map fun i => i.written.name := by
  induction items generalizing attributes with
  | nil => simp
  | cons i items ih =>
    have hn : i.written.name ∉ attributes.values.keys := by
      intro h
      exact (List.nodup_append.1 hnew).2.2 _ h _ (by simp) rfl
    obtain ⟨hentries, hb⟩ :=
      addToken_of_not_mem hn fun h => hn (hbound _ h)
    have hkeys : (AttributeReader.addToken Echo.compile attributes i.full.token).values.keys =
        attributes.values.keys ++ [i.written.name] := by
      simp [Table.keys, hentries]
    obtain ⟨h₁, h₂⟩ := ih (AttributeReader.addToken Echo.compile attributes i.full.token)
      (by simpa [hkeys] using hnew) (by
        intro name hname
        rw [hb, List.mem_append] at hname
        rw [hkeys, List.mem_append]
        refine hname.imp (hbound name) fun h => ?_
        split at h
        · simp at h
        · exact h)
    rw [List.map_cons, List.foldl_cons, h₁, h₂, hentries, hb]
    refine ⟨by simp, ?_⟩
    by_cases hl : i.written.isLiteral = true
    · simp [hl]
    · simp [hl]

end Spaced

/-- **Reading undoes printing.** From attributes of every form, with different names, each after
spaces, their names are read in their order with the expressions that they stand for, and those
that are not literal are bound. -/
theorem read_printed (strict : Bool) (items : List Spaced)
    (hnames : (items.map fun i => i.written.name).Nodup) :
    ∃ attributes, AttributeReader.read ⟨Echo.compile, strict⟩ (Spaced.printed items) =
        .ok attributes ∧
      attributes.values.entries = items.map (fun i => (i.written.name, i.written.expression)) ∧
      attributes.bound =
        (items.filter fun i => !i.written.isLiteral).map fun i => i.written.name := by
  have hfold := Spaced.foldl_addToken items Attributes.empty
    (by simpa [Attributes.empty, Table.empty, Table.keys] using hnames)
    (by simp [Attributes.empty])
  have htokens := Spaced.all_printed items
  unfold AttributeReader.read
  simp only [htokens]
  cases items with
  | nil =>
    refine ⟨Attributes.empty, ?_, rfl, rfl⟩
    have hnil : Shorthand.expand (Spaced.printed []) = [] := Spaced.expand_printed_eq []
    simp [hnil]
  | cons i items => exact ⟨_, rfl, hfold.1, hfold.2⟩

def eachForm : List Spaced :=
  [⟨[' '], .literal ['a'] "it's".toList, Spaced.isRun_space, by decide +kernel, by decide +kernel⟩,
    ⟨[' '], .bound ['b'] "C::d".toList, Spaced.isRun_space, by decide +kernel, by decide +kernel⟩,
    ⟨['\n'], .boundVariable ['e'], by decide +kernel, by decide +kernel, by decide +kernel⟩,
    ⟨[' '], .flag ['f'], Spaced.isRun_space, by decide +kernel, by decide +kernel⟩,
    ⟨['\t'], .call .classes "([\"g\"])".toList, by decide +kernel, by decide +kernel,
      by decide +kernel⟩,
    ⟨[' '], .call .styles "(())".toList, Spaced.isRun_space, by decide +kernel, by decide +kernel⟩,
    ⟨[' '], .bag "->h".toList, Spaced.isRun_space, by decide +kernel, by decide +kernel⟩]

theorem read_printed_eachForm :
    ∃ attributes, AttributeReader.read ⟨Echo.compile, true⟩
        (" a=\"it's\" :b=\"C::d\"\n:$e f\t@class([\"g\"]) @style(())".toList ++
          " \x7b\x7b $attributes->h \x7d\x7d".toList) = .ok attributes ∧
      attributes.values.entries =
        [(['a'], "'it\\'s'".toList), (['b'], "C::d".toList), (['e'], "$e".toList),
          (['f'], "true".toList),
          ("class".toList, "\\Illuminate\\Support\\Arr::toCssClasses(['g'])".toList),
          ("style".toList, "\\Illuminate\\Support\\Arr::toCssStyles(())".toList),
          ("attributes".toList, "$attributes->h".toList)] ∧
      attributes.bound =
        [['b'], ['e'], ['f'], "class".toList, "style".toList, "attributes".toList] := by
  have h := read_printed true eachForm (by decide +kernel)
  have h₁ : Spaced.printed eachForm =
      " a=\"it's\" :b=\"C::d\"\n:$e f\t@class([\"g\"]) @style(())".toList ++
        " \x7b\x7b $attributes->h \x7d\x7d".toList := by decide +kernel
  have h₂ : (eachForm.map fun i => (i.written.name, i.written.expression)) =
      [(['a'], "'it\\'s'".toList), (['b'], "C::d".toList), (['e'], "$e".toList),
        (['f'], "true".toList),
        ("class".toList, "\\Illuminate\\Support\\Arr::toCssClasses(['g'])".toList),
        ("style".toList, "\\Illuminate\\Support\\Arr::toCssStyles(())".toList),
        ("attributes".toList, "$attributes->h".toList)] := by decide +kernel
  have h₃ : ((eachForm.filter fun i => !i.written.isLiteral).map fun i => i.written.name) =
      [['b'], ['e'], ['f'], "class".toList, "style".toList, "attributes".toList] := by
    decide +kernel
  rw [h₁, h₂, h₃] at h
  exact h

end ComponentTags
