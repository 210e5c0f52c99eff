import ComponentTags.Text.Blank
import ComponentTags.Text.Piece

/-!
# Echos

A template prints an expression between braces in three ways: raw, with two exclamation marks
inside the braces; escaped, in three braces; and regular, in two braces, which escapes too. An at
sign before the braces keeps an echo from being compiled.
-/

namespace ComponentTags

/-- A form of echo. -/
inductive Echo where
  | raw
  | escaped
  | regular
  deriving DecidableEq

namespace Echo

open Text

def opening : Echo → Text
  | raw => ['{', '!', '!']
  | escaped => ['{', '{', '{']
  | regular => ['{', '{']

def closing : Echo → Text
  | raw => ['!', '!', '}']
  | escaped => ['}', '}', '}']
  | regular => ['}', '}']

/-- An echo as it is written. -/
structure Written where
  /-- Whether an at sign stands before it. -/
  kept : Bool
  /-- The echo from its opening to its closing. -/
  whole : Text
  /-- What is printed, without blanks at either end. -/
  body : Text
  /-- The end of line right behind the echo, if there is one. -/
  lineEnd : Text

/-- The body of an echo and its length with the closing, in the text behind the opening. The body
has a character, and so a closing right behind the leading blanks ends it only if there is no
other. -/
def body? (kind : Echo) (text : Text) : Option (Text × Nat) :=
  let blanks := text.takeWhile isBlank
  let inner := text.drop blanks.length
  match indexOf? kind.closing (inner.drop 1) with
  | some n =>
    some (stripBlanks (inner.take (n + 1)), blanks.length + 1 + n + kind.closing.length)
  | none =>
    if blanks ≠ [] ∧ kind.closing.isPrefixOf inner then
      some ([], blanks.length + kind.closing.length)
    else none

/-- The end of line at the front of a text. -/
def lineEnd : Text → Text
  | '\n' :: _ => ['\n']
  | '\r' :: '\n' :: _ => ['\r', '\n']
  | _ => []

/-- Finds an echo of one form, after an at sign if `kept` says so. -/
def writtenAfter? (kind : Echo) (kept : Bool) (text : Text) : Option (Written × Nat) :=
  match kind.opening.isPrefixOf? text with
  | none => none
  | some inner =>
    match kind.body? inner with
    | none => none
    | some (body, n) =>
      let size := kind.opening.length + n
      let ending := lineEnd (inner.drop n)
      some (⟨kept, text.take size, body, ending⟩, size + ending.length)

/-- Finds an echo of one form with its at sign. -/
def written? (kind : Echo) (c : Cursor) : Option (Written × Nat) :=
  match c.rest with
  | '@' :: rest => (kind.writtenAfter? true rest).map fun found => (found.1, found.2 + 1)
  | text => kind.writtenAfter? false text

/-- An expression without one semicolon at its end. -/
def expression (body : Text) : Text :=
  if body.getLast? = some ';' then body.dropLast else body

def statement (kind : Echo) (expression : Text) : Text :=
  match kind with
  | raw => "<?php echo ".toList ++ expression ++ "; ?>".toList
  | escaped => "<?php echo e(".toList ++ expression ++ "); ?>".toList
  | regular => "<?php echo e(".toList ++ expression ++ "); ?>".toList

/-- What an echo is compiled to. An end of line behind a statement is doubled, because the
statement swallows one. A kept echo loses its at sign, except in the escaped form. -/
def compiled (kind : Echo) (echo : Written) : Text :=
  if echo.kept then
    (if kind = escaped then ['@'] else []) ++ echo.whole ++ echo.lineEnd
  else kind.statement (expression echo.body) ++ echo.lineEnd ++ echo.lineEnd

def compileForm (kind : Echo) (text : Text) : Text :=
  Piece.expand kind.compiled ((Cursor.start text).pieces kind.written?)

/-- Compiles the echos of several forms, one form after the other. -/
def compileForms (kinds : List Echo) (text : Text) : Text :=
  kinds.foldl (fun text kind => kind.compileForm text) text

def compile (text : Text) : Text :=
  compileForms [raw, escaped, regular] text

end Echo

end ComponentTags
