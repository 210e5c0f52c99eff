import ComponentTags.Command.Arguments
import ComponentTags.Text.Piece

/-!
# The platform of this program

The standard output is taken for a pipe: control sequences for terminals do not get through. The
console shows every line, without its markup.
-/

namespace ComponentTags.Command

/-- Whether a character can stand among the parameters of a control sequence. -/
def isParameter (c : Char) : Bool :=
  '0' ≤ c && c ≤ '?'

/-- Whether a character can stand between the parameters and the end of a control sequence. -/
def isIntermediate (c : Char) : Bool :=
  ' ' ≤ c && c ≤ '/'

def isFinal (c : Char) : Bool :=
  '@' ≤ c && c ≤ '~'

/-- Finds a control sequence for a terminal: an escape and an opening bracket, parameters,
intermediate characters and a final one. -/
def controlSequence? (c : Cursor) : Option (Unit × Nat) :=
  match c.rest with
  | '\x1b' :: '[' :: rest =>
    let parameters := rest.takeWhile isParameter
    let intermediates := (rest.drop parameters.length).takeWhile isIntermediate
    match rest.drop (parameters.length + intermediates.length) with
    | a :: _ =>
      if isFinal a then some ((), parameters.length + intermediates.length + 3) else none
    | [] => none
  | _ => none

/-- The text without control sequences for a terminal. -/
def withoutControls (text : Text) : Text :=
  Piece.expand (fun _ => []) ((Cursor.start text).pieces controlSequence?)

def withoutMarkup (line : Text) : Text :=
  Text.replaceAll "[cyan]".toList [] (Text.replaceAll "[/]".toList [] line)

def Platform.piped : Platform where
  read words := (requestOf words).mapError ArgumentError.message
  badParameter := 2
  exception := 1
  crash := 1
  echo text := .ok (withoutControls text)
  print line := .ok (withoutMarkup line)
  overflow? _ := none

end ComponentTags.Command
