import ComponentTags.Proofs.CodeSegments
import ComponentTags.Proofs.EchoParts
import ComponentTags.Proofs.RoundTrip

/-!
# Echos in a literal value

A literal value with echos in it becomes a concatenation: its texts stay in the string, with their
apostrophes escaped, and each echo ends the string, puts its expression between two full stops and
begins the string again (`AttributeReader.literalBody_interleave`).

1. The echos become statements (`compile_interleave`). An end of line behind an echo comes twice
   from here on, which is why it is put to the text behind the echo (`Stretch.behindEcho`).
2. Three steps go over the whole value: apostrophes are escaped outside code, and the two ends of
   the statements are exchanged. Each of them can be made text by text and echo by echo
   (`map_interleave`), because no statement ends too early (`endsBehind_of_not_infix`) and no end of
   a statement stands anywhere else (`replaceAll_append_of_not_infix`).
-/

namespace ComponentTags

open Text

/-! ## Searches that look at what follows only -/

/-- A search that looks at what follows a cursor does not tell cursors apart by what stands before
them. -/
theorem Cursor.pieces_congr {α : Type} {hit : Cursor → Option (α × Nat)}
    (hhit : ∀ c d : Cursor, c.rest = d.rest → hit c = hit d) {c d : Cursor}
    (h : c.rest = d.rest) : c.pieces hit = d.pieces hit := by
  induction c using Cursor.pieces_induction hit generalizing d with
  | nil c hr => rw [pieces_nil hr, pieces_nil (h ▸ hr)]
  | plain c a rest hr hh ih =>
    have hd : hit d = none := hhit c d h ▸ hh
    rw [pieces_plain hr hh, pieces_plain (h ▸ hr) hd, ih (d := d.next)]
    rw [rest_next, rest_next, h]
  | found c item n hr hh ih =>
    have hd : hit d = some (item, n) := hhit c d h ▸ hh
    rw [pieces_of_hit hr hh, pieces_of_hit (h ▸ hr) hd, ih (d := d.next.advance (n - 1))]
    rw [rest_advance, rest_advance, rest_next, rest_next, h]

/-- Such a search goes on behind some text as if what follows were all there is. -/
theorem Cursor.pieces_advance_append {α : Type} {hit : Cursor → Option (α × Nat)}
    (hhit : ∀ c d : Cursor, c.rest = d.rest → hit c = hit d) {c : Cursor} {u v : Text}
    (hr : c.rest = u ++ v) : (c.advance u.length).pieces hit = (Cursor.start v).pieces hit :=
  pieces_congr hhit (rest_advance_append hr)

namespace Text

variable {old new m u v : Text} {x : Char}

theorem literal_congr {c d : Cursor} (h : c.rest = d.rest) : literal old c = literal old d := by
  rw [literal, literal, h]

theorem replaceAll_mark_append (hold : old ≠ []) :
    replaceAll old new (old ++ v) = new ++ replaceAll old new v := by
  have hr : (Cursor.start (old ++ v)).rest = old ++ v := rfl
  have hhit : literal old (Cursor.start (old ++ v)) = some ((), old.length) := by
    simp [literal, Cursor.start]
  rw [replaceAll, Cursor.expand_pieces_of_hit _ hr hold hhit,
    Cursor.pieces_advance_append (fun _ _ => literal_congr) hr]
  rfl

theorem replaceAll_append (h : ∀ s, s <:+ u → s ≠ [] → ¬ old <+: s ++ v) :
    replaceAll old new (u ++ v) = u ++ replaceAll old new v := by
  have hr : (Cursor.start (u ++ v)).rest = u ++ v := rfl
  have hmisses : (Cursor.start (u ++ v)).Misses (literal old) u := by
    refine Cursor.misses_of_suffix hr fun s d hs hne hd _ => ?_
    rw [literal, if_neg]
    rw [List.isPrefixOf_iff_prefix, hd]
    exact h s hs hne
  rw [replaceAll, Cursor.expand_pieces_of_misses _ hr hmisses,
    Cursor.pieces_advance_append (fun _ _ => literal_congr) hr]
  rfl

theorem replaceAll_append_of_not_mem (hx : x ∉ u) :
    replaceAll (x :: m) new (u ++ v) = u ++ replaceAll (x :: m) new v := by
  refine replaceAll_append fun s hs hne hp => ?_
  obtain ⟨b, s, rfl⟩ := List.exists_cons_of_ne_nil hne
  obtain ⟨rfl, -⟩ := List.cons_prefix_cons.1 hp
  exact hx (hs.subset (by simp))

/-- No occurrence reaches into what follows a stretch, if that does not begin with a later
character of the mark. -/
theorem replaceAll_append_of_not_infix (hno : ¬ x :: m <:+: u) (hv : ∀ y ∈ v.head?, y ∉ m) :
    replaceAll (x :: m) new (u ++ v) = u ++ replaceAll (x :: m) new v := by
  refine replaceAll_append fun s hs hne hp => hno ?_
  obtain ⟨b, s, rfl⟩ := List.exists_cons_of_ne_nil hne
  obtain ⟨rfl, hm⟩ := List.cons_prefix_cons.1 hp
  have hs' : m <+: s := by
    cases v with
    | nil => simpa using hm
    | cons y v => exact prefix_of_prefix_append_cons (hv y (by simp)) hm
  exact (List.cons_prefix_cons.2 ⟨rfl, hs'⟩).isInfix.trans hs.isInfix

end Text

/-! ## Code that is closed -/

namespace Segment

variable {u v : Text}

theorem code?_congr {c d : Cursor} (h : c.rest = d.rest) : code? c = code? d := by
  rw [code?, code?, h]

/-- Code ends with the `?>` behind a stretch that has none and leaves no string open. -/
theorem endsBehind_of_not_infix (hplace : Place.behind .outside u = .outside)
    (hno : ¬ ['?', '>'] <:+: u) (hlast : u.getLast? ≠ some '?') (v : Text) :
    EndsBehind .outside (u ++ (['?', '>'] ++ v)) (u.length + 2) := by
  refine .inl ⟨u.length, ⟨?_, ?_⟩, fun q hq h => ?_, rfl⟩
  · rw [List.drop_left]
    exact ⟨v, rfl⟩
  · rw [List.take_left, hplace]
  · obtain ⟨s, hs⟩ : ∃ s, u.drop q = s := ⟨_, rfl⟩
    have hp : ['?', '>'] <+: s ++ (['?', '>'] ++ v) := by
      have hq' : ['?', '>'] <+: (u ++ (['?', '>'] ++ v)).drop q := h.1
      rwa [List.drop_append_of_le_length (by omega), hs] at hq'
    have hsuffix : s <:+ u := hs ▸ List.drop_suffix q u
    rcases s with _ | ⟨a, _ | ⟨b, s⟩⟩
    · rw [List.drop_eq_nil_iff] at hs
      omega
    · obtain ⟨rfl, -⟩ := List.cons_prefix_cons.1 hp
      obtain ⟨t, rfl⟩ := hsuffix
      exact hlast (by simp)
    · obtain ⟨rfl, hp'⟩ := List.cons_prefix_cons.1 hp
      obtain ⟨rfl, -⟩ := List.cons_prefix_cons.1 hp'
      exact hno (List.IsInfix.trans ⟨[], s, rfl⟩ hsuffix.isInfix)

theorem escapeQuotes_eq_flatMap (t : Text) :
    escapeQuotes t = ((Cursor.start t).pieces code?).flatMap escapedPiece :=
  flatMap_escaped_ofPieces _

theorem escapeQuotes_append_of_not_mem (hu : '<' ∉ u) (v : Text) :
    escapeQuotes (u ++ v) = replaceChar '\x27' ['\\', '\x27'] u ++ escapeQuotes v := by
  have hr : (Cursor.start (u ++ v)).rest = u ++ v := rfl
  have hmisses : (Cursor.start (u ++ v)).Misses code? u := by
    refine Cursor.misses_of_suffix hr fun s d hs hne hd _ => ?_
    obtain ⟨b, s, rfl⟩ := List.exists_cons_of_ne_nil hne
    refine code?_eq_none_iff.2 fun n ho => ?_
    have hb : ∃ mark, '<' :: mark <+: b :: (s ++ v) := by
      rw [hd] at ho
      rcases ho with ⟨hp, -⟩ | ⟨hp, -⟩
      · exact ⟨_, hp⟩
      · exact ⟨_, hp⟩
    obtain ⟨mark, hmark⟩ := hb
    obtain ⟨rfl, -⟩ := List.cons_prefix_cons.1 hmark
    exact hu (hs.subset (by simp))
  rw [escapeQuotes_eq_flatMap, escapeQuotes_eq_flatMap, Cursor.pieces_append_of_misses hr hmisses,
    List.flatMap_append, List.flatMap_map,
    Cursor.pieces_advance_append (fun _ _ => code?_congr) hr]
  congr 2
  funext c
  simp [escapedPiece, replaceChar]

def block (u : Text) : Text :=
  ['<', '?', 'p', 'h', 'p', ' '] ++ (u ++ ['?', '>'])

/-- A block stays as it is, if its code leaves no string open and holds no other end of a block. -/
theorem escapeQuotes_block_append (hplace : Place.behind .outside u = .outside)
    (hno : ¬ ['?', '>'] <:+: u) (hlast : u.getLast? ≠ some '?') (v : Text) :
    escapeQuotes (block u ++ v) = block u ++ escapeQuotes v := by
  have hr : (Cursor.start (block u ++ v)).rest = block u ++ v := rfl
  have hends : EndsBehind .outside ((block u ++ v).drop 5) (u.length + 3) := by
    have hdrop : (block u ++ v).drop 5 = (' ' :: u) ++ (['?', '>'] ++ v) := by simp [block]
    have hno' : ¬ ['?', '>'] <:+: [' '] ++ u :=
      fun h => hno ((infix_append_iff_of_not_mem (by decide)).1 h)
    rw [hdrop]
    refine endsBehind_of_not_infix (u := ' ' :: u) hplace hno' ?_ v
    cases u with
    | nil => simp
    | cons b u => simpa using hlast
  have hhit : code? (Cursor.start (block u ++ v)) = some (block u, (block u).length) := by
    refine code?_eq_some_iff.2 ⟨⟨5, u.length + 3, .inr ⟨⟨_, rfl⟩, rfl, ?_⟩, hends, ?_⟩, ?_⟩
    · intro a ha
      obtain rfl : ' ' = a := Option.some.inj ha
      decide
    · simp [block]
      omega
    · rw [hr, List.take_left]
  rw [escapeQuotes_eq_flatMap, escapeQuotes_eq_flatMap,
    Cursor.pieces_append_of_hit hr (by simp [block]) hhit, List.flatMap_cons,
    Cursor.pieces_advance_append (fun _ _ => code?_congr) hr]
  rfl

end Segment

/-! ## Texts and echos -/

namespace Echo

/-- An echo in a literal value: an expression without blanks at its ends, with all its strings
closed, between two spaces. -/
structure Inserted where
  kind : Echo
  expression : Text
  ne_nil : expression ≠ []
  trimmed : stripBlanks expression = expression
  no_brace : '{' ∉ expression ∧ '}' ∉ expression
  no_mark : ¬ "<?".toList <:+: expression ∧ ¬ "?>".toList <:+: expression
  no_semicolon : expression.getLast? ≠ some ';'
  closed : Segment.Place.behind .outside expression = .outside

/-- Literal text before, between or behind echos. -/
@[ext]
structure Stretch where
  text : Text
  no_echo : '{' ∉ text ∧ '@' ∉ text
  no_code : '<' ∉ text ∧ ¬ "; ?>".toList <:+: text

namespace Inserted

variable (e : Inserted)

def source : Text :=
  match e.kind with
  | raw => ['{', '!', '!', ' '] ++ e.expression ++ [' ', '!', '!', '}']
  | escaped => ['{', '{', '{', ' '] ++ e.expression ++ [' ', '}', '}', '}']
  | regular => ['{', '{', ' '] ++ e.expression ++ [' ', '}', '}']

/-- The end of one string, the expression and the beginning of the next string. -/
def joint : Text :=
  match e.kind with
  | raw => "'.".toList ++ e.expression ++ ".'".toList
  | escaped => "'.e(".toList ++ e.expression ++ ").'".toList
  | regular => "'.e(".toList ++ e.expression ++ ").'".toList

end Inserted

/-- A text and then echos, each of them with a text behind it, when `echo` stands for every echo and
`text` for every text. -/
def interleave (echo : Inserted → Text) (text : Text → Text) (first : Stretch)
    (rest : List (Inserted × Stretch)) : Text :=
  text first.text ++ rest.flatMap fun p => echo p.1 ++ text p.2.text

variable {first : Stretch} {rest : List (Inserted × Stretch)}

/-- What is done to all of a value can be done to its texts and its echos one by one, if it can be
done to each of them, whatever follows an echo and whatever a text may be followed by. -/
theorem map_interleave {f : Text → Text} {echo echo' : Inserted → Text} {text text' : Text → Text}
    (hnil : f [] = [])
    (htext : ∀ (t : Stretch) (v : Text), (v = [] ∨ ∃ e w, v = echo e ++ w) →
      f (text t.text ++ v) = text' t.text ++ f v)
    (hecho : ∀ (e : Inserted) (v : Text), f (echo e ++ v) = echo' e ++ f v)
    (first : Stretch) (rest : List (Inserted × Stretch)) :
    f (interleave echo text first rest) = interleave echo' text' first rest := by
  induction rest generalizing first with
  | nil =>
    show f (text first.text ++ []) = text' first.text ++ []
    rw [htext first [] (.inl rfl), hnil]
  | cons p rest ih =>
    have hrest := ih p.2
    unfold interleave at hrest ⊢
    rw [List.flatMap_cons, List.append_assoc, htext first _ (.inr ⟨p.1, _, rfl⟩), hecho, hrest,
      List.flatMap_cons, List.append_assoc]

/-! ## Echos become statements -/

theorem bounds_of_trimmed {t : Text} (h : stripBlanks t = t) :
    Stops isBlank t ∧ ∀ x ∈ t.getLast?, isBlank x = false := by
  have hsuffix : t.dropWhile isBlank <:+ t := List.dropWhile_suffix isBlank
  have hprefix : t <+: t.dropWhile isBlank := by
    conv_lhs => rw [← h]
    exact prefix_trimEnd isBlank (t.dropWhile isBlank)
  have hdrop : t.dropWhile isBlank = t := hsuffix.eq_of_length_le hprefix.length_le
  obtain ⟨-, -, -, hlast⟩ := exists_eq_trimEnd_append isBlank (t.dropWhile isBlank)
  refine ⟨hdrop ▸ stops_dropWhile isBlank t, fun x hx => hlast x ?_⟩
  have htrim : trimEnd isBlank (t.dropWhile isBlank) = t := h
  rwa [htrim]

namespace Inserted

/-- The echo as a part of a template. -/
def spelled (e : Inserted) : Spelled where
  kind := e.kind
  kept := false
  before := [' ']
  body := e.expression
  after := [' ']
  isBody :=
    { before_blank := by simp [isBlank, isSpace]
      after_blank := by simp [isBlank, isSpace]
      ne_nil := e.ne_nil
      stops := (bounds_of_trimmed e.trimmed).1
      ends := (bounds_of_trimmed e.trimmed).2
      no_brace := e.no_brace.2 }
  before_ne_nil := by simp
  no_brace := e.no_brace.1

theorem source_spelled (e : Inserted) : e.spelled.source = e.source := by
  unfold Spelled.source Spelled.whole source
  obtain ⟨kind, expression⟩ := e
  cases kind <;> simp [spelled, opening, closing]

def statement (e : Inserted) : Text :=
  e.kind.statement e.expression

theorem output_spelled (e : Inserted) (v : Text) :
    e.spelled.output v = e.statement ++ newline v := by
  have hprinted : e.spelled.printed = e.expression := if_neg e.no_semicolon
  unfold Spelled.output statement Echo.statement
  rw [hprinted]
  obtain ⟨kind, expression⟩ := e
  cases kind <;> rfl

end Inserted

theorem not_mem_newline {a : Char} (hn : a ≠ '\n') (hr : a ≠ '\r') (v : Text) : a ∉ newline v := by
  unfold newline
  split_ifs <;> simp [hn, hr]

/-- The text behind an echo, with an end of line at its front doubled. -/
def Stretch.behindEcho (t : Stretch) : Stretch where
  text := newline t.text ++ t.text
  no_echo := by simp [not_mem_newline, t.no_echo]
  no_code := by
    refine ⟨by simp [not_mem_newline, t.no_code.1], fun h => t.no_code.2 ?_⟩
    exact (infix_append_iff_of_not_mem (not_mem_newline (by decide) (by decide) t.text)).1 h

theorem Stretch.behindEcho_of_newline_eq_nil {t : Stretch} (h : newline t.text = []) :
    t.behindEcho = t := by
  ext1
  show newline t.text ++ t.text = t.text
  rw [h, List.nil_append]

def parts (first : Stretch) (rest : List (Inserted × Stretch)) : List Part :=
  .text first.text first.no_echo ::
    rest.flatMap fun p => [.echo p.1.spelled, .text p.2.text p.2.no_echo]

theorem parts_cons (p : Inserted × Stretch) :
    parts first (p :: rest) =
      .text first.text first.no_echo :: .echo p.1.spelled :: parts p.2 rest := rfl

theorem source_parts :
    Part.source (parts first rest) = interleave Inserted.source id first rest := by
  induction rest generalizing first with
  | nil => rfl
  | cons p rest ih =>
    rw [parts_cons, Part.source, Part.source, ih, p.1.source_spelled]
    simp [interleave]

theorem newline_source_parts : newline (Part.source (parts first rest)) = newline first.text := by
  have hrest : newline (rest.flatMap fun p => p.1.source ++ p.2.text) = newline [] := by
    cases rest with
    | nil => rfl
    | cons p rest =>
      have hsource : p.1.source = p.1.spelled.current [] [] := by
        simp [Spelled.current, p.1.source_spelled]
      rw [List.flatMap_cons, List.append_assoc, hsource, Spelled.newline_current]
      rfl
  rw [source_parts]
  have := newline_append_congr hrest first.text
  rwa [List.append_nil] at this

theorem output_parts :
    Part.output (parts first rest) =
      interleave Inserted.statement id first (rest.map fun p => (p.1, p.2.behindEcho)) := by
  induction rest generalizing first with
  | nil => rfl
  | cons p rest ih =>
    rw [parts_cons, Part.output, Part.output, p.1.output_spelled, newline_source_parts, ih]
    simp [interleave, Stretch.behindEcho]

theorem compile_interleave :
    compile (interleave Inserted.source id first rest) =
      interleave Inserted.statement id first (rest.map fun p => (p.1, p.2.behindEcho)) := by
  rw [← source_parts, ← output_parts, ← Part.current_nil, compile_current, Part.current_all]

/-! ## Statements become joints -/

namespace Inserted

variable (e : Inserted)

/-- What the statement prints. -/
def call : Text :=
  match e.kind with
  | raw => e.expression
  | escaped => ['e', '('] ++ (e.expression ++ [')'])
  | regular => ['e', '('] ++ (e.expression ++ [')'])

theorem call_eq : e.call = e.expression ∨ e.call = ['e', '('] ++ (e.expression ++ [')']) := by
  unfold call
  cases e.kind
  · exact .inl rfl
  · exact .inr rfl
  · exact .inr rfl

theorem statement_eq :
    e.statement = "<?php echo ".toList ++ (e.call ++ "; ?>".toList) := by
  unfold statement Echo.statement call
  cases e.kind <;> simp

theorem joint_eq : e.joint = ['\x27', '.'] ++ (e.call ++ ['.', '\x27']) := by
  unfold joint call
  cases e.kind <;> simp

theorem not_infix_call {a b : Char} (ha : a ≠ 'e' ∧ a ≠ '(') (hclosing : ')' ∉ [a, b])
    (h : ¬ [a, b] <:+: e.expression) : ¬ [a, b] <:+: e.call := by
  rcases e.call_eq with hcall | hcall
  · rwa [hcall]
  · rw [hcall, infix_append_iff_of_not_mem (by simp [ha]), infix_append_cons_iff hclosing]
    exact not_or_intro h (by simp)

theorem behind_call : Segment.Place.behind .outside e.call = .outside := by
  rcases e.call_eq with hcall | hcall
  · rw [hcall, e.closed]
  · rw [hcall, Segment.Place.behind_append, Segment.Place.behind_append]
    have hopening : Segment.Place.behind .outside ['e', '('] = .outside := by decide
    rw [hopening, e.closed]
    decide

end Inserted

/-- The texts with a backslash before every apostrophe. -/
def escapedText (t : Text) : Text :=
  replaceChar '\x27' ['\\', '\x27'] t

theorem escapeQuotes_interleave (first : Stretch) (rest : List (Inserted × Stretch)) :
    Segment.escapeQuotes (interleave Inserted.statement id first rest) =
      interleave Inserted.statement escapedText first rest := by
  refine map_interleave rfl (fun t v _ => ?_) (fun e v => ?_) first rest
  · exact Segment.escapeQuotes_append_of_not_mem t.no_code.1 v
  · have hblock : e.statement =
        Segment.block (['e', 'c', 'h', 'o', ' '] ++ (e.call ++ [';', ' '])) := by
      rw [e.statement_eq]
      simp [Segment.block]
    rw [hblock]
    refine Segment.escapeQuotes_block_append ?_ ?_ ?_ v
    · rw [Segment.Place.behind_append, Segment.Place.behind_append]
      have hopening : Segment.Place.behind .outside ['e', 'c', 'h', 'o', ' '] = .outside := by
        decide
      rw [hopening, e.behind_call]
      decide
    · rw [infix_append_iff_of_not_mem (by decide), infix_append_cons_iff (by decide)]
      exact not_or_intro (e.not_infix_call (by decide) (by decide) e.no_mark.2) (by decide)
    · rw [List.getLast?_append, List.getLast?_append]
      simp

/-- An echo when the beginning of its statement has been exchanged. -/
def Inserted.opened (e : Inserted) : Text :=
  ['\x27', '.'] ++ (e.call ++ "; ?>".toList)

theorem not_mem_escapedText {a : Char} {t : Text} (ha : a ≠ '\\') (ht : a ∉ t) :
    a ∉ escapedText t := by
  intro h
  obtain ⟨c, hc, hac⟩ := List.mem_flatMap.1 h
  split at hac
  · next hq =>
    obtain rfl : a = '\x27' := by simpa [ha] using hac
    exact ht (hq ▸ hc)
  · obtain rfl : a = c := by simpa using hac
    exact ht hc

theorem replaceAll_opening_interleave (first : Stretch) (rest : List (Inserted × Stretch)) :
    replaceAll "<?php echo ".toList ['\x27', '.']
        (interleave Inserted.statement escapedText first rest) =
      interleave Inserted.opened escapedText first rest := by
  have hmark : "<?php echo ".toList = '<' :: "?php echo ".toList := by decide
  refine map_interleave rfl (fun t v _ => ?_) (fun e v => ?_) first rest
  · rw [hmark]
    exact replaceAll_append_of_not_mem (not_mem_escapedText (by decide) t.no_code.1)
  · have hcall : ¬ '<' :: "?php echo ".toList <:+: e.call := fun h =>
      e.not_infix_call (by decide) (by decide) e.no_mark.1
        (List.IsInfix.trans ⟨[], "php echo ".toList, by decide⟩ h)
    have hhead : ∀ y ∈ ("; ?>".toList ++ v).head?, y ∉ "?php echo ".toList := by
      intro y hy
      obtain rfl : ';' = y := Option.some.inj hy
      decide
    rw [e.statement_eq, List.append_assoc, replaceAll_mark_append (by decide), List.append_assoc,
      hmark, replaceAll_append_of_not_infix hcall hhead,
      replaceAll_append_of_not_mem (by decide), Inserted.opened]
    simp

theorem replaceAll_closing_interleave (first : Stretch) (rest : List (Inserted × Stretch)) :
    replaceAll "; ?>".toList ['.', '\x27'] (interleave Inserted.opened escapedText first rest) =
      interleave Inserted.joint escapedText first rest := by
  have hmark : "; ?>".toList = ';' :: " ?>".toList := by decide
  refine map_interleave rfl (fun t v hv => ?_) (fun e v => ?_) first rest
  · have hno : ¬ "; ?>".toList <:+: escapedText t.text :=
      not_infix_escaped (by decide) (by decide) t.no_code.2
    rw [hmark] at hno ⊢
    refine replaceAll_append_of_not_infix hno fun y hy => ?_
    rcases hv with rfl | ⟨e, w, rfl⟩
    · simp at hy
    · obtain rfl : '\x27' = y := Option.some.inj hy
      decide
  · have hcall : ¬ ';' :: " ?>".toList <:+: ['\x27', '.'] ++ e.call := fun h => by
      have hend : ['?', '>'] <:+: ['\x27', '.'] ++ e.call :=
        List.IsInfix.trans ⟨[';', ' '], [], by decide⟩ h
      rw [infix_append_iff_of_not_mem (by decide)] at hend
      exact e.not_infix_call (by decide) (by decide) e.no_mark.2 hend
    have hopened : e.opened ++ v = (['\x27', '.'] ++ e.call) ++ ("; ?>".toList ++ v) := by
      simp [Inserted.opened]
    have hhead : ∀ y ∈ (';' :: " ?>".toList ++ v).head?, y ∉ " ?>".toList := by
      intro y hy
      obtain rfl : ';' = y := Option.some.inj hy
      decide
    rw [hopened, hmark, replaceAll_append_of_not_infix hcall hhead, ← hmark,
      replaceAll_mark_append (by decide), e.joint_eq]
    simp

end Echo

namespace AttributeReader

open Echo

/-- **Concatenation.** In a literal value of texts and echos every text stays, with its apostrophes
escaped, and every echo becomes its expression between the end of one string and the beginning of
the next. An end of line right behind an echo comes twice. -/
theorem literalBody_interleave (first : Stretch) (rest : List (Inserted × Stretch)) :
    ((∀ p ∈ rest, newline p.2.text = []) →
      literalBody Echo.compile (interleave Inserted.source id first rest) =
        interleave Inserted.joint (replaceChar '\x27' ['\\', '\x27']) first rest) ∧
    literalBody Echo.compile (interleave Inserted.source id first rest) =
      interleave Inserted.joint (replaceChar '\x27' ['\\', '\x27']) first
        (rest.map fun p => (p.1, p.2.behindEcho)) := by
  have hbody : literalBody Echo.compile (interleave Inserted.source id first rest) =
      interleave Inserted.joint (replaceChar '\x27' ['\\', '\x27']) first
        (rest.map fun p => (p.1, p.2.behindEcho)) := by
    rw [literalBody, compile_interleave, escapeQuotes_interleave, replaceAll_opening_interleave,
      replaceAll_closing_interleave]
    rfl
  refine ⟨fun h => ?_, hbody⟩
  have hsame : (rest.map fun p => (p.1, p.2.behindEcho)) = rest := by
    refine (List.map_congr_left fun p hp => ?_).trans (List.map_id rest)
    exact Prod.ext rfl (Stretch.behindEcho_of_newline_eq_nil (h p hp))
  rw [hbody, hsame]

/-- An echo with strings in it, two echos side by side, and the end of a block in a text. -/
def quotedEchos : List (Inserted × Stretch) :=
  [(⟨.regular, "$a['it\\'s']".toList, by decide, by decide, by decide, by decide, by decide,
      by decide⟩, ⟨" ' ?> ".toList, by decide, by decide⟩),
    (⟨.escaped, "\"'\"".toList, by decide, by decide, by decide, by decide, by decide, by decide⟩,
      ⟨[], by decide, by decide⟩),
    (⟨.raw, "!$b".toList, by decide, by decide, by decide, by decide, by decide, by decide⟩,
      ⟨"\r'".toList, by decide, by decide⟩)]

theorem literalBody_quotedEchos :
    (∀ p ∈ quotedEchos, newline p.2.text = []) ∧
    literalBody Echo.compile
        ("it's \x7b\x7b $a['it\\'s'] \x7d\x7d ' ?> ".toList ++
          "\x7b\x7b\x7b \"'\" \x7d\x7d\x7d\x7b!! !$b !!\x7d\r'".toList) =
      "it\\'s '.e($a['it\\'s']).' \\' ?> '.e(\"'\").''.!$b.'\r\\'".toList := by
  have hline : ∀ p ∈ quotedEchos, newline p.2.text = [] := by decide
  exact ⟨hline, (literalBody_interleave ⟨"it's ".toList, by decide, by decide⟩ quotedEchos).1 hline⟩

end AttributeReader

end ComponentTags
