import ComponentTags.Proofs.Replacing
import Mathlib.Data.List.Chain

/-!
# Literal text and blocks of code

A text is divided into literal text and blocks of code. This says which division it is, by places in
the text and without a search (`Segment.IsDivision`): a block begins where a mark for it stands, and
ends behind the first `?>` outside strings; literal text holds no place where a block begins. There
is one such division, and it is the one that the search makes
(`Segment.isDivision_iff_and_escapeQuotes_eq`).

1. The end of a block is found by walking over its characters with the quote that is open. The walk
   stops at the first `?>` that is outside strings (`endsBehind_codeLength`), so a block is found
   exactly where one begins (`code?_eq_some_iff`, `code?_eq_none_iff`).
2. The first segment of a division and the others can be looked at apart
   (`isDivision_cons_iff`). So the segments of a search are a division (`isDivision_pieces`), and a
   division has the segments of the search (`IsDivision.eq_ofPieces`).
-/

namespace ComponentTags.Segment

open Text

/-! ## Where a block begins and ends -/

/-- Where in code a character stands: outside strings, in a string with some quote, or in such a
string right behind a backslash. -/
inductive Place where
  | outside
  | inside (quote : Char)
  | escaped (quote : Char)
  deriving DecidableEq

namespace Place

/-- The place behind a character. A backslash in a string takes the next character with it. -/
def next : Place → Char → Place
  | outside, c => if c = '\x27' ∨ c = '"' then inside c else outside
  | inside q, c => if c = '\\' then escaped q else if c = q then outside else inside q
  | escaped q, _ => inside q

def behind (place : Place) (code : Text) : Place :=
  code.foldl next place

/-- The place when a quote is open or none is. -/
def ofQuote : Option Char → Place
  | none => outside
  | some q => inside q

theorem behind_append (place : Place) (u v : Text) :
    place.behind (u ++ v) = (place.behind u).behind v :=
  List.foldl_append

end Place

/-- At position `p` of a text there is a mark of `n` characters that a block begins with: `<?=`, or
`<?php` before a blank or the end of the text. -/
def OpensAt (text : Text) (p n : Nat) : Prop :=
  "<?=".toList <+: text.drop p ∧ n = 3 ∨
    "<?php".toList <+: text.drop p ∧ n = 5 ∧ ∀ c ∈ text[p + 5]?, isBlank c = true

/-- At position `q` of some code there is a `?>` outside strings. -/
def ClosesAt (place : Place) (code : Text) (q : Nat) : Prop :=
  "?>".toList <+: code.drop q ∧ place.behind (code.take q) = .outside

/-- The first `n` characters of some code end with its first `?>` outside strings, or are all of
it if there is none. -/
def EndsBehind (place : Place) (code : Text) (n : Nat) : Prop :=
  (∃ q, ClosesAt place code q ∧ (∀ q' < q, ¬ ClosesAt place code q') ∧ n = q + 2) ∨
    (∀ q, ¬ ClosesAt place code q) ∧ n = code.length

/-- From position `p` of a text up to position `e` there is a block of code. -/
def IsBlock (text : Text) (p e : Nat) : Prop :=
  ∃ n m, OpensAt text p n ∧ EndsBehind .outside (text.drop (p + n)) m ∧ e = p + n + m

@[simp] theorem text_literal (t : Text) : (literal t).text = t := rfl

@[simp] theorem text_code (block : Text) : (code block).text = block := rfl

def isLiteral : Segment → Bool
  | literal _ => true
  | code _ => false

def join (segments : List Segment) : Text :=
  segments.flatMap text

/-- The segments are a division of a text: put together they are the text; none is empty, and no
two literal ones stand side by side; a code segment is a block from where it begins to where it
ends; and no block begins at any position in a literal one. -/
structure IsDivision (text : Text) (segments : List Segment) : Prop where
  join_eq : join segments = text
  ne_nil : ∀ s ∈ segments, s.text ≠ []
  apart : segments.IsChain fun s s' => ¬ (s.isLiteral = true ∧ s'.isLiteral = true)
  code : ∀ left block right, segments = left ++ .code block :: right →
    IsBlock text (join left).length ((join left).length + block.length)
  literal : ∀ left t right, segments = left ++ .literal t :: right →
    ∀ p < t.length, ∀ n, ¬ OpensAt text ((join left).length + p) n

/-! ## The walk to the end of a block -/

section Walk

variable {place : Place} {c : Char} {t v : Text} {n m q : Nat}

theorem not_closesAt_nil : ¬ ClosesAt place [] q := by
  simp [ClosesAt]

theorem EndsBehind.cons (h : EndsBehind (place.next c) t n) (h₀ : ¬ ClosesAt place (c :: t) 0) :
    EndsBehind place (c :: t) (n + 1) := by
  rcases h with ⟨q, hq, hfirst, rfl⟩ | ⟨hno, rfl⟩
  · refine .inl ⟨q + 1, hq, fun q' hlt => ?_, rfl⟩
    cases q' with
    | zero => exact h₀
    | succ q' => exact fun h => hfirst q' (by omega) h
  · refine .inr ⟨fun q => ?_, rfl⟩
    cases q with
    | zero => exact h₀
    | succ q => exact fun h => hno q h

theorem not_closesAt_zero_of_ne (h : place ≠ .outside) : ¬ ClosesAt place t 0 :=
  fun hc => h hc.2

theorem EndsBehind.unique (hn : EndsBehind place t n) (hm : EndsBehind place t m) : n = m := by
  rcases hn with ⟨q, hq, hfirst, rfl⟩ | ⟨hno, rfl⟩ <;>
    rcases hm with ⟨q', hq', hfirst', rfl⟩ | ⟨hno', rfl⟩
  · have h₁ : ¬ q' < q := fun h => hfirst q' h hq'
    have h₂ : ¬ q < q' := fun h => hfirst' q h hq
    omega
  · exact absurd hq (hno' q)
  · exact absurd hq' (hno q')
  · rfl

theorem EndsBehind.le_length (h : EndsBehind place t n) : n ≤ t.length := by
  rcases h with ⟨q, hq, -, rfl⟩ | ⟨-, rfl⟩
  · have hl := hq.1.length_le
    rw [List.length_drop] at hl
    have h₂ : "?>".toList.length = 2 := rfl
    omega
  · exact Nat.le_refl _

/-- The walk stops behind the first `?>` that is outside strings. -/
theorem endsBehind_codeLength (quote : Option Char) (t : Text) :
    EndsBehind (Place.ofQuote quote) t (codeLength quote t) := by
  fun_induction codeLength quote t with
  | case1 quote => exact .inr ⟨fun _ => not_closesAt_nil, rfl⟩
  | case2 rest => exact .inl ⟨0, ⟨⟨rest, rfl⟩, rfl⟩, by omega, rfl⟩
  | case3 c cs hno ih =>
    have hnext : Place.outside.next c =
        Place.ofQuote (if c = '\x27' ∨ c = '"' then some c else none) := by
      rw [Place.next]
      split <;> rfl
    refine EndsBehind.cons (hnext ▸ ih) fun h => ?_
    obtain ⟨rest, hrest⟩ := h.1
    obtain ⟨rfl, rfl⟩ := List.cons.inj hrest
    exact hno rest rfl rfl
  | case4 q =>
    refine .inr ⟨fun n => ?_, rfl⟩
    cases n <;> simp [ClosesAt, Place.ofQuote, Place.behind]
  | case5 q c cs ih =>
    -- a backslash takes the next character with it
    have hnext : EndsBehind ((Place.inside q).next '\\') (c :: cs) (codeLength (some q) cs + 1) :=
      EndsBehind.cons ih (not_closesAt_zero_of_ne (by simp [Place.next]))
    exact hnext.cons (not_closesAt_zero_of_ne (by simp))
  | case6 q c cs h₁ h₂ ih =>
    have hc : c ≠ '\\' := by
      rintro rfl
      cases cs with
      | nil => exact h₁ rfl rfl
      | cons d cs => exact h₂ d cs rfl rfl
    have hnext : (Place.inside q).next c = Place.ofQuote (if c = q then none else some q) := by
      rw [Place.next, if_neg hc]
      split <;> rfl
    exact EndsBehind.cons (hnext ▸ ih) (not_closesAt_zero_of_ne (by simp [Place.ofQuote]))

theorem endsBehind_outside_iff : EndsBehind .outside t n ↔ n = codeLength none t :=
  ⟨fun h => h.unique (endsBehind_codeLength none t), fun h => h ▸ endsBehind_codeLength none t⟩

end Walk

/-! ## What the search finds -/

theorem openingLength?_eq_some_iff {t : Text} {n : Nat} :
    openingLength? t = some n ↔ OpensAt t 0 n := by
  unfold openingLength? OpensAt
  split
  · simpa using eq_comm
  · next rest =>
    cases rest with
    | nil => simpa using eq_comm
    | cons c rest => by_cases hc : isBlank c = true <;> simp [hc, eq_comm (a := 5)]
  · next h₁ h₂ =>
    refine iff_of_false (by simp) ?_
    rintro (⟨⟨rest, hrest⟩, -⟩ | ⟨⟨rest, hrest⟩, -⟩)
    · exact h₁ rest hrest.symm
    · exact h₂ rest hrest.symm

theorem openingLength?_eq_none_iff {t : Text} :
    openingLength? t = none ↔ ∀ n, ¬ OpensAt t 0 n := by
  simp only [Option.eq_none_iff_forall_ne_some, ne_eq, openingLength?_eq_some_iff]

theorem isBlock_zero_iff {t : Text} {e : Nat} :
    IsBlock t 0 e ↔ ∃ n, openingLength? t = some n ∧ e = n + codeLength none (t.drop n) := by
  simp only [IsBlock, endsBehind_outside_iff, openingLength?_eq_some_iff, Nat.zero_add]
  constructor
  · rintro ⟨n, m, ho, rfl, rfl⟩
    exact ⟨n, ho, rfl⟩
  · rintro ⟨n, ho, rfl⟩
    exact ⟨n, _, ho, rfl, rfl⟩

/-- A block is found where one begins, up to its end. -/
theorem code?_eq_some_iff {c : Cursor} {block : Text} {e : Nat} :
    code? c = some (block, e) ↔ IsBlock c.rest 0 e ∧ block = c.rest.take e := by
  rw [isBlock_zero_iff, code?]
  cases ho : openingLength? c.rest with
  | none => simp
  | some n =>
    simp only [Option.some.injEq, Prod.mk.injEq, exists_eq_left']
    constructor
    · rintro ⟨rfl, rfl⟩
      exact ⟨rfl, rfl⟩
    · rintro ⟨rfl, rfl⟩
      exact ⟨rfl, rfl⟩

theorem code?_eq_none_iff {c : Cursor} : code? c = none ↔ ∀ n, ¬ OpensAt c.rest 0 n := by
  rw [← openingLength?_eq_none_iff, code?]
  cases openingLength? c.rest <;> simp

theorem OpensAt.bounds {t : Text} {p n : Nat} (h : OpensAt t p n) :
    0 < n ∧ p + n ≤ t.length := by
  rcases h with ⟨hp, rfl⟩ | ⟨hp, rfl, -⟩
  all_goals
    have hl := hp.length_le
    rw [List.length_drop] at hl
    simp at hl
    omega

theorem IsBlock.bounds {t : Text} {p e : Nat} (h : IsBlock t p e) : p < e ∧ e ≤ t.length := by
  obtain ⟨n, m, ho, he, rfl⟩ := h
  have hn := ho.bounds
  have hm := he.le_length
  rw [List.length_drop] at hm
  omega

/-! ## Divisions segment by segment -/

theorem opensAt_append (u v : Text) (p n : Nat) :
    OpensAt (u ++ v) (u.length + p) n ↔ OpensAt v p n := by
  have hget : (u ++ v)[u.length + p + 5]? = v[p + 5]? := by
    rw [List.getElem?_append_right (by omega)]
    congr 1
    omega
  rw [OpensAt, OpensAt, List.drop_append, List.drop_of_length_le (by omega), List.nil_append,
    Nat.add_sub_cancel_left, hget]

theorem isBlock_append (u v : Text) (p e : Nat) :
    IsBlock (u ++ v) (u.length + p) (u.length + e) ↔ IsBlock v p e := by
  have hdrop : ∀ n, (u ++ v).drop (u.length + (p + n)) = v.drop (p + n) := by
    intro n
    rw [List.drop_append, List.drop_of_length_le (by omega), List.nil_append,
      Nat.add_sub_cancel_left]
  simp only [IsBlock, opensAt_append, hdrop, Nat.add_assoc, Nat.add_left_cancel_iff]

/-- A segment is in its place before the rest of a text. -/
def Fits : Segment → Text → Prop
  | .literal t, v => ∀ p < t.length, ∀ n, ¬ OpensAt (t ++ v) p n
  | .code block, v => IsBlock (block ++ v) 0 block.length

theorem join_cons (s : Segment) (segments : List Segment) :
    join (s :: segments) = s.text ++ join segments := rfl

theorem isDivision_cons_iff {text : Text} {s : Segment} {segments : List Segment} :
    IsDivision text (s :: segments) ↔ ∃ v, text = s.text ++ v ∧ s.text ≠ [] ∧
      (∀ s' ∈ segments.head?, ¬ (s.isLiteral = true ∧ s'.isLiteral = true)) ∧ s.Fits v ∧
      IsDivision v segments := by
  constructor
  · rintro ⟨rfl, hne, hapart, hcode, hliteral⟩
    rw [List.isChain_cons] at hapart
    refine ⟨join segments, join_cons s segments, hne s (by simp), hapart.1, ?_, rfl,
      fun s' hs' => hne s' (by simp [hs']), hapart.2, fun left block right h => ?_,
      fun left t right h p hp n => ?_⟩
    · cases s with
      | literal t => simpa [Fits, join] using hliteral [] t segments rfl
      | code block => simpa [Fits, join] using hcode [] block segments rfl
    · have hb := hcode (s :: left) block right (by rw [h]; rfl)
      rw [join_cons, join_cons, List.length_append, Nat.add_assoc, isBlock_append] at hb
      exact hb
    · have ht := hliteral (s :: left) t right (by rw [h]; rfl) p hp n
      rw [join_cons, join_cons, List.length_append, Nat.add_assoc, opensAt_append] at ht
      exact ht
  · rintro ⟨v, rfl, hne, hapart, hfits, rfl, hne', hapart', hcode, hliteral⟩
    refine ⟨join_cons s segments, ?_, List.isChain_cons.2 ⟨hapart, hapart'⟩,
      fun left block right h => ?_, fun left t right h p hp n => ?_⟩
    · intro s' hs'
      rcases List.mem_cons.1 hs' with rfl | hs'
      · exact hne
      · exact hne' s' hs'
    · rcases List.cons_eq_append_iff.1 h with ⟨rfl, h⟩ | ⟨left, rfl, rfl⟩
      · obtain ⟨rfl, -⟩ := List.cons.inj h
        simpa [join, Fits] using hfits
      · rw [join_cons, List.length_append, Nat.add_assoc, isBlock_append]
        exact hcode left block right rfl
    · rcases List.cons_eq_append_iff.1 h with ⟨rfl, h⟩ | ⟨left, rfl, rfl⟩
      · obtain ⟨rfl, -⟩ := List.cons.inj h
        simpa [join] using hfits p hp n
      · rw [join_cons, List.length_append, Nat.add_assoc, opensAt_append]
        exact hliteral left t right rfl p hp n

theorem isDivision_nil : IsDivision [] [] :=
  ⟨rfl, by simp, .nil, by simp, by simp⟩

/-! ## The segments of a search -/

theorem IsDivision.plain {a : Char} {v : Text} {ps : List (Piece Text)}
    (h : IsDivision v (ofPieces ps)) (ha : ∀ n, ¬ OpensAt (a :: v) 0 n) :
    IsDivision (a :: v) (ofPieces (.plain a :: ps)) := by
  rw [ofPieces]
  split
  · next t rest hs =>
    rw [hs, isDivision_cons_iff] at h
    obtain ⟨w, rfl, -, hapart, hfits, hw⟩ := h
    refine isDivision_cons_iff.2 ⟨w, rfl, by simp [text], hapart, fun p hp n => ?_, hw⟩
    cases p with
    | zero => exact ha n
    | succ p =>
      rw [Nat.add_comm]
      exact fun h => hfits p (by simpa using hp) n ((opensAt_append [a] (t ++ w) p n).1 h)
  · next hno =>
    refine isDivision_cons_iff.2 ⟨v, rfl, by simp [text], fun s' hs' => ?_, fun p hp n => ?_, h⟩
    · cases hsegments : ofPieces ps with
      | nil => simp [hsegments] at hs'
      | cons s segments =>
        obtain rfl : s = s' := by simpa [hsegments] using hs'
        cases s with
        | literal t => exact absurd hsegments (hno t segments)
        | code block => simp [isLiteral]
    · obtain rfl : p = 0 := by simpa using hp
      exact ha n

/-- **Search.** The segments of a search are a division of the text. -/
theorem isDivision_pieces (c : Cursor) : IsDivision c.rest (ofPieces (c.pieces code?)) := by
  induction c using Cursor.pieces_induction code? with
  | nil c hr =>
    rw [Cursor.pieces_nil hr, hr]
    exact isDivision_nil
  | plain c a rest hr hh ih =>
    have hnext : c.next.rest = rest := by simp [Cursor.rest_next, hr]
    rw [hnext] at ih
    rw [Cursor.pieces_plain hr hh, hr]
    exact ih.plain (hr ▸ code?_eq_none_iff.1 hh)
  | found c block e hr hh ih =>
    obtain ⟨hblock, rfl⟩ := code?_eq_some_iff.1 hh
    have he := hblock.bounds
    have hsplit : c.rest = c.rest.take e ++ c.rest.drop e := (List.take_append_drop e c.rest).symm
    have hlength : (c.rest.take e).length = e := List.length_take_of_le he.2
    have hbehind : (c.next.advance (e - 1)).rest = c.rest.drop e := by
      rw [Cursor.rest_advance, Cursor.rest_next, List.drop_drop]
      congr 1
      omega
    rw [hbehind] at ih
    rw [Cursor.pieces_of_hit hr hh, ofPieces]
    refine isDivision_cons_iff.2 ⟨_, hsplit, ?_, by simp [isLiteral], ?_, ih⟩
    · exact List.ne_nil_of_length_pos (by rw [text, hlength]; exact he.1)
    · rw [Fits, ← hsplit, hlength]
      exact hblock

theorem ofPieces_plain_append {t : Text} {ps : List (Piece Text)} (ht : t ≠ [])
    (hps : ∀ s ∈ (ofPieces ps).head?, s.isLiteral = false) :
    ofPieces (t.map .plain ++ ps) = .literal t :: ofPieces ps := by
  induction t with
  | nil => exact absurd rfl ht
  | cons a t ih =>
    rw [List.map_cons, List.cons_append, ofPieces]
    cases t with
    | nil =>
      rw [List.map_nil, List.nil_append]
      split
      · next t rest hs => simp [hs, isLiteral] at hps
      · rfl
    | cons b t => rw [ih (by simp)]

/-- **Uniqueness.** A division of the text has the segments of the search. -/
theorem IsDivision.eq_ofPieces {segments : List Segment} {c : Cursor}
    (h : IsDivision c.rest segments) : segments = ofPieces (c.pieces code?) := by
  induction segments generalizing c with
  | nil =>
    rw [Cursor.pieces_nil h.join_eq.symm]
    rfl
  | cons s segments ih =>
    obtain ⟨v, hr, hne, hapart, hfits, hv⟩ := isDivision_cons_iff.1 h
    have hrest : segments = ofPieces ((c.advance s.text.length).pieces code?) := by
      refine ih ?_
      rwa [Cursor.rest_advance_append hr]
    cases s with
    | code block =>
      have hhit : code? c = some (block, block.length) := by
        refine code?_eq_some_iff.2 ⟨?_, ?_⟩
        · rw [hr]
          exact hfits
        · rw [hr]
          exact List.take_left.symm
      rw [Cursor.pieces_append_of_hit hr hne hhit, ofPieces, hrest]
    | literal t =>
      have hmisses : c.Misses code? t := by
        intro p hp
        refine code?_eq_none_iff.2 fun n ho => hfits p hp n ?_
        rw [Cursor.rest_advance, hr, text_literal] at ho
        simpa [OpensAt] using ho
      rw [Cursor.pieces_append_of_misses hr hmisses, ofPieces_plain_append hne, hrest]
      · rfl
      · intro s' hs'
        have hs := hapart s'
        rw [hrest] at hs
        simpa [isLiteral] using hs hs'

/-! ## Escaped apostrophes -/

/-- For every character of some segments whether it stands in code. -/
def inCode (segments : List Segment) : List Bool :=
  segments.flatMap fun s => List.replicate s.text.length (!s.isLiteral)

/-- A character as it is, or with a backslash before it if it is an apostrophe outside code. -/
def escapedChar (c : Char) (code : Bool) : Text :=
  if c = '\x27' ∧ code = false then ['\\', c] else [c]

theorem escaped_eq (s : Segment) :
    s.escaped = (s.text.zip (List.replicate s.text.length (!s.isLiteral))).flatMap fun x =>
      escapedChar x.1 x.2 := by
  have hzip : ∀ (code : Bool) (t : Text),
      ((t.zip (List.replicate t.length code)).flatMap fun x => escapedChar x.1 x.2) =
        t.flatMap fun c => escapedChar c code := by
    intro code t
    induction t with
    | nil => rfl
    | cons c t ih => simp [List.replicate_succ, ih]
  rw [hzip]
  cases s with
  | code block => simp [escaped, escapedChar, isLiteral]
  | literal t =>
    rw [escaped, replaceChar]
    congr 1
    funext c
    by_cases hc : c = '\x27' <;> simp [escapedChar, isLiteral, hc]

theorem flatMap_escaped (segments : List Segment) :
    segments.flatMap escaped =
      ((join segments).zip (inCode segments)).flatMap fun x => escapedChar x.1 x.2 := by
  induction segments with
  | nil => rfl
  | cons s segments ih =>
    have hin : inCode (s :: segments) =
        List.replicate s.text.length (!s.isLiteral) ++ inCode segments := rfl
    rw [List.flatMap_cons, ih, join_cons, hin, List.zip_append (by simp), List.flatMap_append,
      ← escaped_eq]

/-- **Segments.** The segments of a text are its only division into literal text and blocks of code.
Escaping keeps every character, and puts a backslash before each apostrophe outside code. -/
theorem isDivision_iff_and_escapeQuotes_eq (text : Text) :
    (∀ segments, IsDivision text segments ↔ segments = all text) ∧
    escapeQuotes text = (text.zip (inCode (all text))).flatMap fun x => escapedChar x.1 x.2 := by
  have hall : IsDivision text (all text) := isDivision_pieces (Cursor.start text)
  refine ⟨fun segments => ⟨fun h => ?_, fun h => h ▸ hall⟩, ?_⟩
  · exact IsDivision.eq_ofPieces (c := Cursor.start text) h
  · rw [escapeQuotes, flatMap_escaped, hall.join_eq]

example :
    escapeQuotes "'<?php'<?= '?>\\'' ?>'<?php".toList =
      "\\'<?php\\'<?= '?>\\'' ?>\\'<?php".toList := by
  decide

end ComponentTags.Segment
