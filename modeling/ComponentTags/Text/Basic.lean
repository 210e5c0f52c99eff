/-!
# Texts

A text is the list of its characters, so that every length and position counts characters.
The searches below scan from the left; `occursIn_iff_infix` and `indexOf?_eq_none_iff` say what
they look for.
-/

namespace ComponentTags

/-- A text is the list of its characters. -/
abbrev Text := List Char

namespace Text

/-- Whether `needle` stands somewhere in a text. -/
def occursIn (needle : Text) : Text → Bool
  | [] => needle.isEmpty
  | c :: cs => needle.isPrefixOf (c :: cs) || occursIn needle cs

theorem occursIn_iff_infix {needle text : Text} :
    occursIn needle text = true ↔ needle <:+: text := by
  induction text with
  | nil => simp [occursIn]
  | cons c cs ih => simp [occursIn, ih, List.infix_cons_iff]

/-- The place of the leftmost occurrence of `needle`. -/
def indexOf? (needle : Text) : Text → Option Nat
  | [] => if needle.isEmpty then some 0 else none
  | c :: cs =>
    if needle.isPrefixOf (c :: cs) then some 0 else (indexOf? needle cs).map (· + 1)

theorem indexOf?_eq_none_iff {needle text : Text} :
    indexOf? needle text = none ↔ ¬ needle <:+: text := by
  induction text with
  | nil => simp [indexOf?]
  | cons c cs ih =>
    by_cases h : needle <+: c :: cs <;> simp [indexOf?, h, ih, List.infix_cons_iff]

/-- What follows the leftmost occurrence of `mark`; all of the text without one. An empty mark
has no occurrence. -/
def afterFirst (mark text : Text) : Text :=
  if mark.isEmpty then text else
    match indexOf? mark text with
    | some n => text.drop (n + mark.length)
    | none => text

/-- The text with the leftmost occurrence of `old` exchanged for `new`. -/
def replaceFirst (old new text : Text) : Text :=
  match indexOf? old text with
  | some n => text.take n ++ new ++ text.drop (n + old.length)
  | none => text

/-- The text with every character `old` exchanged for `new`. -/
def replaceChar (old : Char) (new : Text) (text : Text) : Text :=
  text.flatMap fun c => if c = old then new else [c]

/-- The text without the characters at its end that satisfy `p`. -/
def trimEnd (p : Char → Bool) (text : Text) : Text :=
  (text.reverse.dropWhile p).reverse

/-- The text without the characters at either end that satisfy `p`. -/
def trim (p : Char → Bool) (text : Text) : Text :=
  trimEnd p (text.dropWhile p)

/-- The text without its first and its last character, if it starts with a quote of either
kind. -/
def unquoted : Text → Text
  | '"' :: rest => rest.dropLast
  | '\x27' :: rest => rest.dropLast
  | text => text

/-- Joins texts, with `mark` between every two of them. -/
def joinWith (mark : Text) (texts : List Text) : Text :=
  mark.intercalate texts

end Text

end ComponentTags
