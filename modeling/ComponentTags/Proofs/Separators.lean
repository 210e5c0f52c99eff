import ComponentTags.Proofs.BoundNames
import ComponentTags.Proofs.Parted

/-!
# What separates attributes

A short form is found behind a space only, and a bare value ends at a space only. So the same
attributes with other blanks between them can be read otherwise.

1. `Parted.Divided` says that every colon has a space right before it, and every empty value one
   right behind it.
2. `Parted.items_eq_iff_divided` says that this is when the tokens are the ones to be read.
3. `Parted.read_printed_eq_iff_divided` compares two choices of blanks.
-/

namespace ComponentTags

open Text Shorthand

/-! ## The tokens to be read -/

namespace Written

/-- The value between the quotes. -/
def quoted? : Written → Option Text
  | literal _ value => some value
  | bound _ value => some value
  | _ => none

def token : Written → Token
  | literal name value => ⟨name, some ('"' :: value ++ ['"'])⟩
  | bound name value => ⟨bindMark ++ name, some ('"' :: value ++ ['"'])⟩
  | boundVariable name => ⟨bindMark ++ name, some ('"' :: ('$' :: name) ++ ['"'])⟩
  | w => ⟨w.name, none⟩

variable {w : Written}

theorem exists_inFull_eq (hw : w.IsPlain) : ∃ name value,
    w.inFull = name ++ quotedValue value ∧ IsRun isAttributeNameChar name ∧ '"' ∉ value ∧
      w.token = ⟨name, some ('"' :: value ++ ['"'])⟩ ∧ (value = [] ↔ w.quoted? = some []) := by
  have hproper := hw.proper
  cases w with
  | literal name value =>
    exact ⟨name, value, rfl, isRun_attributeName hw.1, hproper.2, rfl, by simp [quoted?]⟩
  | bound name value =>
    exact ⟨bindMark ++ name, value, rfl, isRun_bindMark hw.1, hproper.2, rfl, by simp [quoted?]⟩
  | boundVariable name =>
    have hbound := isPlain_bound_variable hw
    exact ⟨bindMark ++ name, '$' :: name, rfl, isRun_bindMark hbound.1, hbound.proper.2, rfl,
      by simp [quoted?]⟩
  | _ => exact hw.elim

theorem key_token_ne_colon (hw : w.IsPlain) : w.token.key.head? ≠ some ':' := by
  have hname : ∀ {name : Text}, IsRun isPlainNameChar name → ':' ∉ name :=
    fun h => not_mem_of_isRun h (by decide)
  have hkey : ∀ {name : Text}, ':' ∉ name → (AttributeReader.keyOf name).head? ≠ some ':' := by
    intro name h
    rw [Spaced.keyOf_of_not_mem h]
    exact fun hc => h (List.mem_of_head? hc)
  have hmark : ∀ name : Text, bindMark.isPrefixOf? (bindMark ++ name) = some name :=
    fun name => by rw [List.isPrefixOf?_eq_some_iff_append_eq]
  cases w with
  | literal name value =>
    have hc := hname hw.1
    simpa [token, Token.key, Token.bareName, Spaced.isPrefixOf?_bindMark_eq_none hc] using hkey hc
  | bound name value => simpa [token, Token.key, Token.bareName, hmark] using hkey (hname hw.1)
  | boundVariable name =>
    have hc : ':' ∉ name := not_mem_of_isRun hw (by decide)
    simpa [token, Token.key, Token.bareName, hmark] using hkey hc
  | _ => exact hw.elim

/-- Behind the colon of a bound attribute comes no other one. -/
theorem exists_text_eq_colon (hw : w.IsPlain) (h : w.isLiteral = false) :
    ∃ a t, w.text = ':' :: a :: t ∧ a ≠ ':' := by
  cases w with
  | literal name value => simp [isLiteral] at h
  | bound name value =>
    obtain ⟨a, name, rfl, ha⟩ := hw.1.exists_cons
    refine ⟨a, name ++ quotedValue value, rfl, ?_⟩
    rintro rfl
    exact absurd ha (by decide)
  | boundVariable name => exact ⟨'$', name, rfl, by decide⟩
  | _ => exact hw.elim

end Written

namespace Token

variable {c : Cursor} {t v : Text}

/-- Quotes with nothing between them are read as a bare value. -/
theorem value?_empty (hv : ¬ Stops isBareChar v) :
    ∃ a w, value? ('"' :: '"' :: v) = some ('"' :: '"' :: a :: w) := by
  cases v with
  | nil => exact absurd (by simp [Stops]) hv
  | cons a v =>
    have ha : isBareChar a = true := by simpa using hv
    have hquote : isBareChar '"' = true := by decide
    exact ⟨a, v.takeWhile isBareChar, by simp [value?, quotedValue?, bareValue?, ha, hquote]⟩

/-- A single colon at the front of a name stays in its key. -/
theorem exists_token?_of_colon {a : Char} (hr : c.rest = ':' :: a :: t) (ha : a ≠ ':') :
    ∃ k n, token? c = some (k, n) ∧ k.key.head? = some ':' := by
  obtain ⟨name, hname⟩ : ∃ name, (a :: t).takeWhile isAttributeNameChar = name := ⟨_, rfl⟩
  have htake : c.rest.takeWhile isAttributeNameChar = ':' :: name := by
    have hcolon : isAttributeNameChar ':' = true := by decide
    rw [hr, List.takeWhile_cons_of_pos hcolon, hname]
  have hkey : ∀ value, (key ⟨':' :: name, value⟩).head? = some ':' := by
    intro value
    have hmark : bindMark.isPrefixOf? (':' :: name) = none := rfl
    have hsingle : ¬ [':', ':'] <+: ':' :: name := by
      intro hp
      have hsub := (List.cons_prefix_cons.1 hp).2.trans (hname ▸ List.takeWhile_prefix _)
      exact ha (List.cons_prefix_cons.1 hsub).1.symm
    simp [key, bareName, hmark, AttributeReader.keyOf_eq_self hsingle]
  have htoken : ∃ value n, token? c = some (⟨':' :: name, value⟩, n) := by
    simp only [token?, htake]
    split
    · next h => simp at h
    · split
      · split
        · exact ⟨_, _, rfl⟩
        · exact ⟨_, _, rfl⟩
      · exact ⟨_, _, rfl⟩
  obtain ⟨value, n, h⟩ := htoken
  exact ⟨_, n, h, hkey value⟩

end Token

namespace Parted

/-! ## Divided attributes -/

/-- The attribute has no colon, or the colon has a space right before it. -/
def IsFound (i : Parted) : Prop :=
  i.written.isLiteral = true ∨ i.SpaceBefore

instance (i : Parted) : Decidable i.IsFound :=
  inferInstanceAs (Decidable (_ ∨ _))

/-- Every colon has a space right before it, and every empty value has one right behind it. -/
def Divided : List Parted → Prop
  | [] => True
  | i :: l => i.IsFound ∧ (i.written.quoted? = some [] → ∀ j ∈ l.head?, j.SpaceFirst) ∧ Divided l

instance decidableDivided : (l : List Parted) → Decidable (Divided l)
  | [] => isTrue trivial
  | _ :: l =>
    have : Decidable (∀ j ∈ l.head?, j.SpaceFirst) :=
      Option.decidableForallMem (p := fun j => j.SpaceFirst) l.head?
    have := decidableDivided l
    inferInstanceAs (Decidable (_ ∧ _ ∧ _))

variable {i : Parted} {c : Cursor} {v : Text} {l : List Parted}

/-! ## Tokens -/

theorem items_of_blanks {gap t : Text} (hgap : ∀ x ∈ gap, isBlank x = true)
    (hr : c.rest = gap ++ t) :
    Piece.items (c.pieces Token.token?) =
      Piece.items ((c.advance gap.length).pieces Token.token?) := by
  have hmiss : c.Misses Token.token? gap := by
    refine Cursor.misses_of_suffix hr fun s d hs hne hd _ => ?_
    obtain ⟨x, s, rfl⟩ := List.exists_cons_of_ne_nil hne
    have hx : isAttributeNameChar x = false := by
      by_contra h
      have hblank := isBlank_of_isAttributeNameChar (by simpa using h)
      simp [hgap x (hs.subset (by simp))] at hblank
    exact Token.token?_eq_none hd hx
  rw [Cursor.pieces_append_of_misses hr hmiss, Piece.items_plain_append]

theorem exists_inFull_of_found (hi : i.IsFound) : ∃ gap name value,
    i.inFull = gap ++ (name ++ Written.quotedValue value) ∧ (∀ x ∈ gap, isBlank x = true) ∧
      IsRun isAttributeNameChar name ∧ '"' ∉ value ∧
      i.written.token = ⟨name, some ('"' :: value ++ ['"'])⟩ ∧
      (value = [] ↔ i.written.quoted? = some []) := by
  obtain ⟨gap, hfull, hgap, -⟩ := i.exists_inFull_eq
  obtain ⟨name, value, hword, hname, hq, htoken, hempty⟩ := Written.exists_inFull_eq i.isPlain
  refine ⟨gap, name, value, ?_, hgap.2, hname, hq, htoken, hempty⟩
  rw [hfull, ← hword]
  split
  · rfl
  · next hspace =>
    have hliteral := hi.resolve_right hspace
    cases hw : i.written with
    | literal name value => rfl
    | _ => simp [hw, Written.isLiteral] at hliteral

/-- An attribute that is found is one token, unless its empty value takes more in. -/
theorem items_of_found (hi : i.IsFound)
    (hv : i.written.quoted? = some [] → Stops Token.isBareChar v) (hr : c.rest = i.inFull ++ v) :
    Piece.items (c.pieces Token.token?) =
      i.written.token :: Piece.items ((c.advance i.inFull.length).pieces Token.token?) := by
  obtain ⟨gap, name, value, hfull, hgap, hname, hq, htoken, hempty⟩ := exists_inFull_of_found hi
  have hr₁ : c.rest = gap ++ (name ++ Written.quotedValue value ++ v) := by simp [hr, hfull]
  have hr₂ := Cursor.rest_advance_append hr₁
  have hhit := Token.token?_quoted hname hq (fun h => hv (hempty.1 h)) hr₂
  rw [items_of_blanks hgap hr₁, Cursor.pieces_append_of_hit hr₂ (by simp [hname.1]) hhit,
    Piece.items, Cursor.advance_advance, ← List.length_append, ← hfull, htoken]

/-- An empty value with no space behind it takes more in. -/
theorem items_of_empty (hi : i.IsFound) (hempty : i.written.quoted? = some [])
    (hv : ¬ Stops Token.isBareChar v) (hr : c.rest = i.inFull ++ v) :
    ∃ k ks, Piece.items (c.pieces Token.token?) = k :: ks ∧ k ≠ i.written.token := by
  obtain ⟨gap, name, value, hfull, hgap, hname, -, htoken, hvalue⟩ := exists_inFull_of_found hi
  obtain rfl : value = [] := hvalue.2 hempty
  have hr₁ : c.rest = gap ++ (name ++ '=' :: '"' :: '"' :: v) := by
    simp [hr, hfull, Written.quotedValue]
  have hr₂ := Cursor.rest_advance_append hr₁
  obtain ⟨a, w, hw⟩ := Token.value?_empty hv
  have hhit := Token.token?_of_value? hname hw hr₂
  rw [items_of_blanks hgap hr₁, Cursor.pieces_of_hit (by simp [hr₂]) hhit, Piece.items, htoken]
  exact ⟨_, _, rfl, by simp⟩

/-- A colon with no space before it is read as part of a name. -/
theorem items_of_not_found (hi : ¬ i.IsFound) (hr : c.rest = i.inFull ++ v) :
    ∃ k ks, Piece.items (c.pieces Token.token?) = k :: ks ∧ k.key.head? = some ':' := by
  obtain ⟨gap, hfull, hgap, -⟩ := i.exists_inFull_eq
  rw [IsFound, not_or] at hi
  rw [if_neg hi.2] at hfull
  obtain ⟨a, t, ht, ha⟩ := Written.exists_text_eq_colon i.isPlain (by simpa using hi.1)
  have hr₁ : c.rest = gap ++ (':' :: a :: (t ++ v)) := by simp [hr, hfull, ht]
  have hr₂ := Cursor.rest_advance_append hr₁
  obtain ⟨k, n, hhit, hkey⟩ := Token.exists_token?_of_colon hr₂ ha
  rw [items_of_blanks hgap.2 hr₁, Cursor.pieces_of_hit (by simp [hr₂]) hhit, Piece.items]
  exact ⟨k, _, rfl, hkey⟩

/-- The first token is that of the attribute if and only if the attribute is found and what follows
it does not go into an empty value. -/
theorem exists_items_eq_cons (hr : c.rest = i.inFull ++ v) :
    ∃ k ks, Piece.items (c.pieces Token.token?) = k :: ks ∧
      (k = i.written.token ↔
        i.IsFound ∧ (i.written.quoted? = some [] → Stops Token.isBareChar v)) := by
  by_cases hi : i.IsFound
  · by_cases hv : i.written.quoted? = some [] → Stops Token.isBareChar v
    · exact ⟨_, _, items_of_found hi hv hr, fun _ => ⟨hi, hv⟩, fun _ => rfl⟩
    · obtain ⟨hempty, hstops⟩ := Classical.not_imp.1 hv
      obtain ⟨k, ks, hk, hne⟩ := items_of_empty hi hempty hstops hr
      exact ⟨k, ks, hk, fun h => absurd h hne, fun h => absurd h.2 hv⟩
  · obtain ⟨k, ks, hk, hkey⟩ := items_of_not_found hi hr
    refine ⟨k, ks, hk, ?_, fun h => absurd h.1 hi⟩
    rintro rfl
    exact absurd hkey (Written.key_token_ne_colon i.isPlain)

theorem stops_isBareChar_iff (l : List Parted) :
    Stops Token.isBareChar (l.flatMap inFull) ↔ ∀ j ∈ l.head?, j.SpaceFirst := by
  cases l with
  | nil => simp [Stops]
  | cons j l =>
    obtain ⟨gap, hfull, hgap, hfirst⟩ := j.exists_inFull_eq
    obtain ⟨a, gap, rfl, ha⟩ := hgap.exists_cons
    have hbracket : a ≠ '>' := by
      rintro rfl
      exact absurd ha (by decide)
    have hfirst' : isSpace a = true ↔ j.SpaceFirst := by simpa using hfirst
    simp [hfull, Token.isBareChar, hbracket, hfirst']

/-- The tokens are those of the attributes if and only if the attributes are divided. -/
theorem items_eq_iff_divided {l : List Parted} {c : Cursor} (hr : c.rest = l.flatMap inFull) :
    Piece.items (c.pieces Token.token?) = l.map (fun i => i.written.token) ↔ Divided l := by
  induction l generalizing c with
  | nil => simp [Cursor.pieces_nil hr, Piece.items, Divided]
  | cons i l ih =>
    rw [List.flatMap_cons] at hr
    rw [Divided, List.map_cons, ← stops_isBareChar_iff, ← and_assoc]
    by_cases hfirst : i.IsFound ∧
        (i.written.quoted? = some [] → Stops Token.isBareChar (l.flatMap inFull))
    · rw [items_of_found hfirst.1 hfirst.2 hr, List.cons.injEq,
        ih (Cursor.rest_advance_append hr)]
      exact and_congr_left' ⟨fun _ => hfirst, fun _ => rfl⟩
    · obtain ⟨k, ks, hk, hiff⟩ := exists_items_eq_cons hr
      rw [hk, List.cons.injEq, hiff]
      exact ⟨fun h => absurd h.1 hfirst, fun h => absurd h.1 hfirst⟩

def tokens (l : List Parted) : List Token :=
  l.map fun i => i.written.token

theorem all_printed_eq_iff (l : List Parted) :
    Token.all (expand (printed l)) = tokens l ↔ Divided l := by
  rw [Token.all, expand_printed_eq]
  exact items_eq_iff_divided rfl

theorem tokens_congr {l' : List Parted} (h : l'.map written = l.map written) :
    tokens l' = tokens l := by
  have hmap : ∀ l : List Parted, tokens l = (l.map written).map Written.token := by
    intro l
    rw [tokens, List.map_map]
    rfl
  rw [hmap, hmap, h]

/-- With a value in all quotes, a colon that is not found is read as part of some name. -/
theorem exists_mem_items_colon {c : Cursor} (hr : c.rest = l.flatMap inFull)
    (hvalues : ∀ i ∈ l, i.written.quoted? ≠ some []) (hl : ¬ Divided l) :
    ∃ k ∈ Piece.items (c.pieces Token.token?), k.key.head? = some ':' := by
  induction l generalizing c with
  | nil => exact absurd trivial hl
  | cons i l ih =>
    rw [List.flatMap_cons] at hr
    obtain ⟨hvalue, hvalues⟩ := List.forall_mem_cons.1 hvalues
    by_cases hi : i.IsFound
    · have hrest : ¬ Divided l := fun h => hl ⟨hi, fun hempty => absurd hempty hvalue, h⟩
      obtain ⟨k, hk, hkey⟩ := ih (Cursor.rest_advance_append hr) hvalues hrest
      rw [items_of_found hi (fun hempty => absurd hempty hvalue) hr]
      exact ⟨k, List.mem_cons_of_mem _ hk, hkey⟩
    · obtain ⟨k, ks, hk, hkey⟩ := items_of_not_found hi hr
      exact ⟨k, by simp [hk], hkey⟩

/-! ## Reading -/

theorem divided_of_isSpace (hl : ∀ i ∈ l, ∀ x ∈ i.blanks, isSpace x = true) : Divided l := by
  induction l with
  | nil => trivial
  | cons i l ih =>
    obtain ⟨hi, hl⟩ := List.forall_mem_cons.1 hl
    refine ⟨Or.inr fun x hx => hi x (List.mem_of_getLast? hx), fun _ j hj x hx => ?_, ih hl⟩
    exact hl j (List.mem_of_head? hj) x (List.mem_of_head? hx)

theorem all_printed_ne_nil (hl : l ≠ []) : Token.all (expand (printed l)) ≠ [] := by
  obtain ⟨i, l, rfl⟩ := List.exists_cons_of_ne_nil hl
  rw [Token.all, expand_printed_eq]
  obtain ⟨k, ks, hk, -⟩ := exists_items_eq_cons
    (c := Cursor.start ((i :: l).flatMap inFull)) List.flatMap_cons
  rw [hk]
  exact List.cons_ne_nil k ks

/-- No reader refuses the attributes, however they are parted. -/
theorem read_printed_eq_ok (reader : AttributeReader) (l : List Parted) :
    reader.read (printed l) =
      .ok (AttributeReader.ofTokens reader.echo (Token.all (expand (printed l)))) := by
  have hrefuses : reader.refuses (expand (printed l)) = false := by
    by_cases hl : l = []
    · subst hl
      rw [expand_printed_eq]
      simp [AttributeReader.refuses]
    · simp [AttributeReader.refuses, all_printed_ne_nil hl]
  rw [AttributeReader.read_eq, hrefuses]
  rfl

/-- No attribute has a name with a colon at its front. -/
theorem get?_ofTokens_tokens (echo : Text → Text) (l : List Parted) {key : Text}
    (hkey : key.head? = some ':') :
    (AttributeReader.ofTokens echo (tokens l)).values.get? key = none := by
  rw [AttributeReader.get?_ofTokens, Option.map_eq_none_iff, Token.supplier?_eq_none_iff]
  intro k hk
  obtain ⟨i, -, rfl⟩ := List.mem_map.1 hk
  rintro rfl
  exact Written.key_token_ne_colon i.isPlain hkey

/-- Attributes with values are read as what they are only if they are divided. -/
theorem divided_of_read_eq (reader : AttributeReader) {m : List Parted}
    (hvalues : ∀ i ∈ l, i.written.quoted? ≠ some [])
    (h : reader.read (printed l) = .ok (AttributeReader.ofTokens reader.echo (tokens m))) :
    Divided l := by
  by_contra hl
  obtain ⟨k, hk, hkey⟩ : ∃ k ∈ Token.all (expand (printed l)), k.key.head? = some ':' := by
    rw [Token.all, expand_printed_eq]
    exact exists_mem_items_colon rfl hvalues hl
  have hnone := get?_ofTokens_tokens reader.echo m hkey
  rw [read_printed_eq_ok] at h
  rw [← Except.ok.inj h, AttributeReader.get?_ofTokens, Option.map_eq_none_iff,
    Token.supplier?_eq_none_iff] at hnone
  exact hnone k hk rfl

/-- Divided attributes are read as what they are, so the same attributes are read alike if they are
divided, and divided they are if all blanks are spaces. Where no value is empty, attributes that
are not divided are read otherwise, and their tokens differ in any case. -/
theorem read_printed_eq_iff_divided (reader : AttributeReader) {l l' : List Parted}
    (hw : l'.map written = l.map written) (hl : Divided l) :
    reader.read (printed l) = .ok (AttributeReader.ofTokens reader.echo (tokens l)) ∧
      (Divided l' → reader.read (printed l') = reader.read (printed l)) ∧
      ((∀ i ∈ l', i.written.quoted? ≠ some []) →
        reader.read (printed l') = reader.read (printed l) → Divided l') ∧
      (Token.all (expand (printed l')) = Token.all (expand (printed l)) ↔ Divided l') ∧
      ((∀ i ∈ l', ∀ x ∈ i.blanks, isSpace x = true) → Divided l') := by
  have htokens := (all_printed_eq_iff l).2 hl
  have hread := read_printed_eq_ok reader l
  rw [htokens] at hread ⊢
  refine ⟨hread, ?_⟩
  -- Of the other list only the attributes count, and they are the same.
  rw [hread, ← tokens_congr hw, all_printed_eq_iff]
  refine ⟨fun hl' => ?_, divided_of_read_eq reader, Iff.rfl, divided_of_isSpace⟩
  rw [read_printed_eq_ok, (all_printed_eq_iff l').2 hl']

def eachForm (a b c : Text) (h : IsRun isBlank a ∧ IsRun isBlank b ∧ IsRun isBlank c) :
    List Parted :=
  [⟨a, .literal ['a'] ['x'], h.1, by decide +kernel⟩,
    ⟨b, .bound ['b'] ['y'], h.2.1, by decide +kernel⟩,
    ⟨c, .boundVariable ['c'], h.2.2, by decide +kernel⟩]

/-- Before a literal any blank will do, and before a colon any blanks that end in a space. -/
theorem read_eachForm_noBreakSpace :
    AttributeReader.read ⟨Echo.compile, true⟩ "\u00a0a=\"x\"\u00a0 :b=\"y\"\n:$c".toList =
        AttributeReader.read ⟨Echo.compile, true⟩ " a=\"x\" :b=\"y\" :$c".toList ∧
      AttributeReader.read ⟨Echo.compile, true⟩ " a=\"x\" :b=\"y\"\u00a0:$c".toList ≠
        AttributeReader.read ⟨Echo.compile, true⟩ " a=\"x\" :b=\"y\" :$c".toList := by
  have halike := @read_printed_eq_iff_divided ⟨Echo.compile, true⟩
    (eachForm [' '] [' '] [' '] (by decide))
    (eachForm ['\u00a0'] ['\u00a0', ' '] ['\n'] (by decide)) rfl (by decide +kernel)
  have hother := @read_printed_eq_iff_divided ⟨Echo.compile, true⟩
    (eachForm [' '] [' '] [' '] (by decide))
    (eachForm [' '] [' '] ['\u00a0'] (by decide)) rfl (by decide +kernel)
  refine ⟨halike.2.1 (by decide +kernel), fun heq => ?_⟩
  exact absurd (hother.2.2.1 (by decide +kernel) heq) (by decide +kernel)

/-- Behind another blank than a space, the colon of a bound attribute goes into its name, and its
value is read as a literal. -/
theorem read_bound_noBreakSpace_ne :
    (Written.bound ['a'] ['x']).IsPlain ∧ IsRun isBlank [' '] ∧ IsRun isBlank ['\u00a0'] ∧
      (∃ attributes, AttributeReader.read ⟨Echo.compile, true⟩ " :a=\"x\"".toList =
          .ok attributes ∧
        attributes.values.entries = [("a".toList, "x".toList)] ∧
        attributes.bound = ["a".toList]) ∧
      ∃ attributes, AttributeReader.read ⟨Echo.compile, true⟩ "\u00a0:a=\"x\"".toList =
          .ok attributes ∧
        attributes.values.entries = [(":a".toList, "'x'".toList)] ∧ attributes.bound = [] :=
  ⟨by decide, by decide, by decide, ⟨_, rfl, by decide, by decide⟩, ⟨_, rfl, by decide, by decide⟩⟩

end Parted

end ComponentTags
