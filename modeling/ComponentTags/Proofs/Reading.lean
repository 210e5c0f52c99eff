import ComponentTags.Tag.Grammar
import Mathlib.Data.List.Basic

/-!
# Reading along a text

What the moves of a cursor do when the text from the cursor on is given as a concatenation
`u ++ v`: the cursor behind `u` has `v` before it, and a run of characters of a class ends where
the class ends (`Stops`).
-/

namespace ComponentTags

namespace Text

variable {p : Char → Bool} {a : Char} {u v : Text}

/-! ## Classes of characters -/

theorem isTagNameChar_of_isWordChar (h : isWordChar a = true) : isTagNameChar a = true := by
  simp [isTagNameChar, h]

theorem isAttributeNameChar_of_isTagNameChar (h : isTagNameChar a = true) :
    isAttributeNameChar a = true := by
  simp [isAttributeNameChar, h]

/-- The characters of names lie between the hyphen and the last letter. -/
theorem toNat_of_isAttributeNameChar (h : isAttributeNameChar a = true) :
    0x2D ≤ a.toNat ∧ a.toNat ≤ 0x7A := by
  delta isAttributeNameChar isTagNameChar isWordChar Char.isAlphanum Char.isAlpha Char.isUpper
    Char.isLower Char.isDigit at h
  simp only [Bool.or_eq_true, Bool.and_eq_true, decide_eq_true_eq, beq_iff_eq, ge_iff_le,
    UInt32.le_iff_toNat_le] at h
  have hv : a.val.toNat = a.toNat := rfl
  rcases h with ((((h | rfl) | rfl) | rfl) | rfl) | rfl
  · simp only [hv] at h
    simp at h
    omega
  all_goals decide

theorem isBlank_of_isAttributeNameChar (h : isAttributeNameChar a = true) :
    isBlank a = false := by
  have := toNat_of_isAttributeNameChar h
  simp [isBlank, isSpace]
  omega

theorem isSpace_of_not_isBlank (h : isBlank a = false) : isSpace a = false := by
  by_cases hs : isSpace a = true
  · rw [isBlank_of_isSpace hs] at h
    simp at h
  · simpa using hs

theorem isSpace_of_isAttributeNameChar (h : isAttributeNameChar a = true) : isSpace a = false :=
  isSpace_of_not_isBlank (isBlank_of_isAttributeNameChar h)

/-! ## Runs and beginnings -/

/-- A non-empty text of characters of a class. -/
def IsRun (p : Char → Bool) (text : Text) : Prop :=
  text ≠ [] ∧ ∀ a ∈ text, p a = true

instance (p : Char → Bool) (text : Text) : Decidable (IsRun p text) :=
  have := List.decidableBAll (fun a => p a = true) text
  inferInstanceAs (Decidable (_ ∧ _))

/-- Every character has a property if the check along the text says so. -/
theorem forall_mem_of_all {P : Char → Prop} [DecidablePred P]
    (h : u.all (fun x => decide (P x)) = true) : ∀ x ∈ u, P x := by
  simpa using h

theorem IsRun.exists_cons (h : IsRun p u) : ∃ a w, u = a :: w ∧ p a = true := by
  obtain ⟨hn, hu⟩ := h
  rcases u with _ | ⟨a, w⟩
  · exact absurd rfl hn
  · exact ⟨a, w, rfl, hu a (by simp)⟩

/-- The text does not begin with a character of the class. -/
def Stops (p : Char → Bool) (text : Text) : Prop :=
  ∀ a ∈ text.head?, p a = false

@[simp] theorem stops_cons : Stops p (a :: u) ↔ p a = false := by
  simp [Stops]

theorem stops_dropWhile (p : Char → Bool) (text : Text) : Stops p (text.dropWhile p) := by
  intro a ha
  simpa [Option.mem_def.1 ha] using List.head?_dropWhile_not p text

theorem of_mem_takeWhile (h : a ∈ u.takeWhile p) : p a = true :=
  List.all_eq_true.1 List.all_takeWhile a h

/-- A run ends where its class ends. -/
theorem takeWhile_append (hu : ∀ a ∈ u, p a = true) (hv : Stops p v) :
    (u ++ v).takeWhile p = u := by
  rw [List.takeWhile_append_of_pos hu]
  cases v with
  | nil => simp
  | cons b v => simp [stops_cons.1 hv]

theorem takeWhile_ne_append (h : a ∉ u) : (u ++ a :: v).takeWhile (· != a) = u := by
  refine takeWhile_append (fun b hb => ?_) (by simp)
  have : b ≠ a := fun e => h (e ▸ hb)
  simpa using this

theorem exists_eq_takeWhile_append (p : Char → Bool) (text : Text) :
    ∃ rest, text = text.takeWhile p ++ rest ∧ text.drop (text.takeWhile p).length = rest ∧
      Stops p rest := by
  refine ⟨text.dropWhile p, List.takeWhile_append_dropWhile.symm, ?_, stops_dropWhile p text⟩
  have h : text = text.takeWhile p ++ text.dropWhile p := List.takeWhile_append_dropWhile.symm
  exact (congrArg (List.drop _) h).trans List.drop_left

theorem trimEnd_append (hu : ∀ x ∈ u, p x = true) (hv : ∀ x ∈ v.getLast?, p x = false) :
    trimEnd p (v ++ u) = v := by
  have hs : Stops p v.reverse := by
    intro x hx
    exact hv x (by simpa using hx)
  have hd : (u.reverse ++ v.reverse).dropWhile p = v.reverse := by
    have h := List.takeWhile_append_dropWhile (p := p) (l := u.reverse ++ v.reverse)
    rw [takeWhile_append (by simpa using hu) hs] at h
    exact List.append_cancel_left h
  rw [trimEnd, List.reverse_append, hd, List.reverse_reverse]

theorem prefix_trimEnd (p : Char → Bool) (text : Text) : trimEnd p text <+: text := by
  rw [← List.reverse_suffix, trimEnd, List.reverse_reverse]
  exact List.dropWhile_suffix p

theorem exists_eq_trimEnd_append (p : Char → Bool) (t : Text) :
    ∃ r, t = trimEnd p t ++ r ∧ (∀ x ∈ r, p x = true) ∧
      ∀ x ∈ (trimEnd p t).getLast?, p x = false := by
  refine ⟨(t.reverse.takeWhile p).reverse, ?_, fun x hx => ?_, fun x hx => ?_⟩
  · rw [trimEnd, ← List.reverse_append, List.takeWhile_append_dropWhile, List.reverse_reverse]
  · exact of_mem_takeWhile (List.mem_reverse.1 hx)
  · rw [trimEnd, List.getLast?_reverse] at hx
    exact stops_dropWhile p t.reverse x hx

/-- A text without a character begins another text as far as that character only. -/
theorem prefix_of_prefix_append_cons {mark : Text} (ha : a ∉ mark)
    (h : mark <+: u ++ a :: v) : mark <+: u := by
  obtain h | h := List.prefix_or_prefix_of_prefix h (List.prefix_append u (a :: v))
  · exact h
  · obtain ⟨w, rfl⟩ := h
    obtain ⟨t, ht⟩ := h
    rw [List.append_assoc] at ht
    have hw := List.append_cancel_left ht
    cases w with
    | nil => simp
    | cons b w =>
      obtain ⟨rfl, -⟩ := List.cons.inj hw
      exact absurd (by simp) ha

/-- A text without a character stands on one side of every occurrence of it. -/
theorem infix_append_cons_iff {mark : Text} (ha : a ∉ mark) :
    mark <:+: u ++ a :: v ↔ mark <:+: u ∨ mark <:+: v := by
  constructor
  · induction u with
    | nil =>
      intro h
      rcases List.infix_cons_iff.1 h with h | h
      · exact Or.inl (prefix_of_prefix_append_cons (u := []) ha h).isInfix
      · exact Or.inr h
    | cons b u ih =>
      intro h
      rcases List.infix_cons_iff.1 h with h | h
      · exact Or.inl (prefix_of_prefix_append_cons (u := b :: u) ha h).isInfix
      · exact (ih h).imp_left fun h' => List.infix_cons_iff.2 (Or.inr h')
  · rintro (h | h)
    · exact h.trans (List.prefix_append u (a :: v)).isInfix
    · exact h.trans ((List.suffix_cons a v).trans (List.suffix_append u (a :: v))).isInfix

/-- A text whose first character does not stand in `u` is not found in it. -/
theorem infix_append_iff_of_not_mem {mark : Text} (ha : a ∉ u) :
    a :: mark <:+: u ++ v ↔ a :: mark <:+: v := by
  constructor
  · induction u with
    | nil => exact id
    | cons b u ih =>
      intro h
      rcases List.infix_cons_iff.1 h with h | h
      · obtain ⟨rfl, -⟩ := List.cons_prefix_cons.1 h
        exact absurd (by simp) ha
      · exact ih (fun hm => ha (by simp [hm])) h
  · exact fun h => h.trans (List.suffix_append u v).isInfix

/-- A text whose last character does not stand in `v` is not found in it. -/
theorem infix_append_iff_of_not_mem_right {mark : Text} (ha : a ∉ v) :
    mark ++ [a] <:+: u ++ v ↔ mark ++ [a] <:+: u := by
  have h : a ∉ v.reverse := by simpa using ha
  calc mark ++ [a] <:+: u ++ v
    _ ↔ (mark ++ [a]).reverse <:+: (u ++ v).reverse := List.reverse_infix.symm
    _ ↔ a :: mark.reverse <:+: v.reverse ++ u.reverse := by simp
    _ ↔ a :: mark.reverse <:+: u.reverse := infix_append_iff_of_not_mem h
    _ ↔ (mark ++ [a]).reverse <:+: u.reverse := by simp
    _ ↔ mark ++ [a] <:+: u := List.reverse_infix

/-- A mark is found where its first `a` is the first one of the text. -/
theorem indexOf?_append_of_not_mem {mark tail : Text} (hu : a ∉ u) (hm : a ∉ mark) (v : Text) :
    indexOf? (mark ++ a :: tail) (u ++ (mark ++ a :: tail) ++ v) = some u.length := by
  induction u with
  | nil => cases mark <;> simp [indexOf?]
  | cons b u ih =>
    have hne : ¬ mark ++ a :: tail <+: b :: (u ++ (mark ++ a :: tail) ++ v) := by
      intro hp
      have h₁ : mark ++ [a] <+: mark ++ a :: tail := ⟨tail, by simp⟩
      have h₂ : b :: u ++ mark <+: b :: (u ++ (mark ++ a :: tail) ++ v) := ⟨a :: tail ++ v, by simp⟩
      have h₃ : mark ++ [a] <+: b :: u ++ mark :=
        List.prefix_of_prefix_length_le (h₁.trans hp) h₂ (by simp)
      rcases List.mem_append.1 (h₃.subset (by simp : a ∈ mark ++ [a])) with h | h
      · exact hu h
      · exact hm h
    rw [List.cons_append, List.cons_append, indexOf?, if_neg (by simpa using hne),
      ih fun h => hu (List.mem_cons_of_mem b h)]
    rfl

theorem replaceChar_cons (old : Char) (new : Text) (b : Char) (u : Text) :
    replaceChar old new (b :: u) = (if b = old then new else [b]) ++ replaceChar old new u := rfl

theorem replaceChar_singleton (old new : Char) (t : Text) :
    replaceChar old [new] t = t.map fun c => if c = old then new else c := by
  induction t with
  | nil => rfl
  | cons a t ih =>
    rw [replaceChar_cons, ih, List.map_cons]
    split <;> rfl

theorem not_mem_replaceChar {old : Char} {new : Text} (hn : old ∉ new) :
    old ∉ replaceChar old new u := by
  intro h
  obtain ⟨b, -, hb⟩ := List.mem_flatMap.1 h
  split at hb
  · exact hn hb
  · next hne => exact hne (by simpa using hb : old = b).symm

theorem prefix_of_prefix_replaceChar {old : Char} {new mark : Text} (hn : new ≠ [])
    (hm : ∀ x ∈ new, x ∉ mark) (h : mark <+: replaceChar old new u) : mark <+: u := by
  induction u generalizing mark with
  | nil => simpa [replaceChar] using h
  | cons b u ih =>
    rcases mark with _ | ⟨x, mark⟩
    · simp
    rw [replaceChar_cons] at h
    split at h
    · obtain ⟨y, new, rfl⟩ := List.exists_cons_of_ne_nil hn
      obtain ⟨rfl, -⟩ := List.cons_prefix_cons.1 h
      exact absurd (by simp) (hm x (by simp))
    · obtain ⟨rfl, hr⟩ := List.cons_prefix_cons.1 h
      exact List.cons_prefix_cons.2 ⟨rfl, ih (fun y hy hy' => hm y hy (by simp [hy'])) hr⟩

/-- What is written for a character brings no text with it that has none of its characters. -/
theorem infix_of_infix_replaceChar {old : Char} {new mark : Text} (hn : new ≠ [])
    (hm : ∀ x ∈ new, x ∉ mark) (h : mark <:+: replaceChar old new u) : mark <:+: u := by
  have hskip : ∀ new' w : Text, (∀ x ∈ new', x ∉ mark) → mark <:+: new' ++ w → mark <:+: w := by
    intro new' w hm' h
    induction new' with
    | nil => exact h
    | cons x new' ih =>
      rcases (infix_append_cons_iff (u := []) (hm' x (by simp))).1 h with h | h
      · exact List.infix_nil.1 h ▸ List.nil_infix
      · exact ih (fun y hy => hm' y (by simp [hy])) h
  induction u with
  | nil => simpa [replaceChar] using h
  | cons b u ih =>
    have hb := replaceChar_cons old new b u
    split at hb
    · rw [hb] at h
      exact (ih (hskip new _ hm h)).trans (List.suffix_cons b u).isInfix
    · rw [hb] at h
      rcases List.infix_cons_iff.1 h with hp | hi
      · have hp' : mark <+: replaceChar old new (b :: u) := hb ▸ hp
        exact (prefix_of_prefix_replaceChar hn hm hp').isInfix
      · exact (ih hi).trans (List.suffix_cons b u).isInfix

/-- A run ends before a stretch ends whose last character is of another class. -/
theorem exists_eq_append_of_run {s r t : Text} (h : s ++ v = r ++ t)
    (hr : ∀ x ∈ r, p x = true) (hs : s ≠ []) (hl : ∀ x ∈ s.getLast?, p x = false) :
    ∃ s', s' ≠ [] ∧ s = r ++ s' ∧ t = s' ++ v := by
  have hlast : ∀ w, r = s ++ w → False := by
    rintro w rfl
    have hx := List.getLast?_eq_some_getLast hs
    have h₁ := hl _ hx
    rw [hr _ (by simp)] at h₁
    simp at h₁
  rcases List.append_eq_append_iff.1 h with ⟨w, hw, -⟩ | ⟨w, hw, ht⟩
  · exact (hlast w hw).elim
  · refine ⟨w, ?_, hw, ht⟩
    rintro rfl
    exact hlast [] (by simpa using hw.symm)

end Text

namespace Cursor

open Text

variable {c d : Cursor} {p : Char → Bool} {u v mark : Text}

theorem advance_advance (c : Cursor) (m n : Nat) :
    (c.advance m).advance n = c.advance (m + n) := by
  induction m generalizing c with
  | zero => simp [advance]
  | succ m ih =>
    rw [advance, ih, Nat.add_right_comm]
    rfl

theorem rest_advance_append (h : c.rest = u ++ v) : (c.advance u.length).rest = v := by
  rw [rest_advance, h, List.drop_left]

theorem pos_advance_append (h : c.rest = u ++ v) :
    (c.advance u.length).pos = c.pos + u.length := by
  apply pos_advance
  simp [h]

theorem before_advance_append (h : c.rest = u ++ v) :
    (c.advance u.length).before = u.reverse ++ c.before := by
  induction u generalizing c with
  | nil => rfl
  | cons a u ih =>
    have hn : c.next.before = a :: c.before := by simp [next, h]
    have hr : c.next.rest = u ++ v := by simp [rest_next, h]
    rw [List.length_cons, advance, ih hr, hn]
    simp

theorem upTo_advance_append (h : c.rest = u ++ v) : c.upTo (c.advance u.length) = u := by
  rw [upTo, pos_advance_append h, Nat.add_sub_cancel_left, h, List.take_left]

theorem exists_skipWhile (p : Char → Bool) (c : Cursor) :
    ∃ u v, c.rest = u ++ v ∧ (∀ a ∈ u, p a = true) ∧ Stops p v ∧
      c.skipWhile p = c.advance u.length := by
  refine ⟨c.rest.takeWhile p, c.rest.dropWhile p, ?_, ?_, stops_dropWhile p c.rest, rfl⟩
  · exact List.takeWhile_append_dropWhile.symm
  · exact fun a ha => of_mem_takeWhile ha

theorem skipWhile_append (h : c.rest = u ++ v) (hu : ∀ a ∈ u, p a = true) (hv : Stops p v) :
    c.skipWhile p = c.advance u.length := by
  rw [skipWhile, h, takeWhile_append hu hv]

theorem skipWhile_of_stops (h : Stops p c.rest) : c.skipWhile p = c :=
  skipWhile_append (u := []) rfl (by simp) h

theorem expect?_eq_some_iff :
    c.expect? mark = some d ↔ mark <+: c.rest ∧ d = c.advance mark.length := by
  by_cases h : mark <+: c.rest
  · have hp : mark.isPrefixOf c.rest = true := List.isPrefixOf_iff_prefix.2 h
    rw [expect?, if_pos hp, Option.some.injEq, eq_comm]
    exact ⟨fun e => ⟨h, e⟩, fun e => e.2⟩
  · simp [expect?, h]

theorem expect?_eq_none_iff : c.expect? mark = none ↔ ¬ mark <+: c.rest := by
  simp [expect?]

theorem expect?_append (h : c.rest = mark ++ v) :
    c.expect? mark = some (c.advance mark.length) :=
  expect?_eq_some_iff.2 ⟨h ▸ List.prefix_append mark v, rfl⟩

theorem rest_ofPos (text : Text) (n : Nat) : (ofPos text n).rest = text.drop n :=
  rest_advance (start text) n

theorem drop_text (c : Cursor) : c.text.drop c.pos = c.rest := by
  rw [text, c.pos_eq, ← List.length_reverse, List.drop_left]

theorem pos_ofPos {text : Text} {n : Nat} (h : n ≤ text.length) : (ofPos text n).pos = n := by
  rw [ofPos, pos_advance (c := start text) h]
  simp

end Cursor

/-! ## Values of attributes -/

namespace Token

open Text

variable {t v : Text}

theorem prefix_of_quotedValue? {quote : Char} (h : quotedValue? quote t = some v) : v <+: t := by
  unfold quotedValue? at h
  split at h
  · simp at h
  · next a rest =>
    obtain ⟨rest', hrest, -, hstop⟩ := exists_eq_takeWhile_append (· != quote) rest
    generalize rest.takeWhile (· != quote) = inner at h hrest
    simp only at h
    split at h
    · next hc =>
      obtain rfl := Option.some.inj h
      have hlt := hc.2.2
      cases rest' with
      | nil => simp [hrest] at hlt
      | cons b rest' =>
        obtain rfl : b = quote := by simpa using hstop
        exact ⟨rest', by simp [hrest]⟩
    · simp at h

theorem prefix_of_value? (h : value? t = some v) : v <+: t := by
  unfold value? at h
  simp only [Option.orElse_eq_orElse, Option.orElse_eq_or, Option.or_eq_some_iff] at h
  rcases h with h | ⟨-, h | ⟨-, h⟩⟩
  · exact prefix_of_quotedValue? h
  · exact prefix_of_quotedValue? h
  · unfold bareValue? at h
    simp only at h
    split at h
    · simp at h
    · obtain rfl := Option.some.inj h
      exact List.takeWhile_prefix _

end Token

end ComponentTags
