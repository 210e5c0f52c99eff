import ComponentTags.Text.Blank
import ComponentTags.Text.Piece

/-!
# Code blocks

A compiled text is literal text with blocks of code in it. A block begins with `<?=`, or with
`<?php` before a blank or the end of the text; it ends with the first `?>` outside quotes, or with
the text.
-/

namespace ComponentTags

/-- A stretch of literal text, or a block of code with its marks. -/
inductive Segment where
  | literal (text : Text)
  | code (text : Text)

namespace Segment

open Text

def text : Segment → Text
  | literal t => t
  | code t => t

/-- The length of the mark that a block of code begins with. -/
def openingLength? : Text → Option Nat
  | '<' :: '?' :: '=' :: _ => some 3
  | '<' :: '?' :: 'p' :: 'h' :: 'p' :: rest =>
    match rest with
    | [] => some 5
    | c :: _ => if isBlank c then some 5 else none
  | _ => none

/-- The number of characters up to the end of the block, with its closing mark. Inside quotes,
which `quote` tells, the mark does not count and a backslash takes the next character with it. -/
def codeLength : (quote : Option Char) → Text → Nat
  | _, [] => 0
  | none, '?' :: '>' :: _ => 2
  | none, c :: cs => codeLength (if c = '\x27' ∨ c = '"' then some c else none) cs + 1
  | some _, ['\\'] => 1
  | some q, '\\' :: _ :: cs => codeLength (some q) cs + 2
  | some q, c :: cs => codeLength (if c = q then none else some q) cs + 1

def code? (c : Cursor) : Option (Text × Nat) :=
  match openingLength? c.rest with
  | none => none
  | some n =>
    let size := n + codeLength none (c.rest.drop n)
    some (c.rest.take size, size)

/-- Joins characters outside blocks to literal segments. -/
def ofPieces : List (Piece Text) → List Segment
  | [] => []
  | .found block :: ps => code block :: ofPieces ps
  | .plain c :: ps =>
    match ofPieces ps with
    | literal t :: rest => literal (c :: t) :: rest
    | rest => literal [c] :: rest

def all (text : Text) : List Segment :=
  ofPieces ((Cursor.start text).pieces code?)

/-- The segment with a backslash before every apostrophe of literal text. -/
def escaped : Segment → Text
  | literal t => replaceChar '\x27' ['\\', '\x27'] t
  | code t => t

/-- The text with a backslash before every apostrophe outside code. -/
def escapeQuotes (text : Text) : Text :=
  (all text).flatMap escaped

end Segment

end ComponentTags
