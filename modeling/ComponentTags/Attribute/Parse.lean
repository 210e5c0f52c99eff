import ComponentTags.Attribute.Map
import ComponentTags.Attribute.Shorthand
import ComponentTags.Attribute.Token
import ComponentTags.CodeBlock
import ComponentTags.Error

/-!
# Reading attributes

The text between the name of a tag and its end is written in full, cut into tokens, and each
token gives a value to a name. A later token for the same name gives it another value, in the
same place. Text without any token has no attributes, which is an error if the reader is strict.
-/

namespace ComponentTags

open Text

/-- How attributes are read. -/
structure AttributeReader where
  /-- How echos in a literal value are compiled. -/
  echo : Text → Text
  /-- Whether text without attributes is an error. -/
  strict : Bool

namespace AttributeReader

/-- A literal value between apostrophes: its echos are compiled, its apostrophes escaped, and the
statements in it leave the apostrophes for the expression that they print. -/
def literalBody (echo : Text → Text) (value : Text) : Text :=
  replaceAll "; ?>".toList ['.', '\x27']
    (replaceAll "<?php echo ".toList ['\x27', '.'] (Segment.escapeQuotes (echo value)))

def literalValue (echo : Text → Text) (value : Text) : Text :=
  ['\x27'] ++ literalBody echo value ++ ['\x27']

/-- The name under which a value goes: two colons at its front stand for one. -/
def keyOf (name : Text) : Text :=
  match name with
  | ':' :: ':' :: rest => ':' :: rest
  | _ => name

def addToken (echo : Text → Text) (attributes : Attributes) (token : Token) : Attributes :=
  match Shorthand.bindMark.isPrefixOf? token.name, token.value with
  | some name, none => attributes.putBound name (keyOf name) trueValue
  | some name, some value => attributes.putBound name (keyOf name) (unquoted value)
  | none, none => attributes.putBound token.name (keyOf token.name) trueValue
  | none, some value =>
    attributes.putLiteral (keyOf token.name) (literalValue echo (unquoted value))

def ofTokens (echo : Text → Text) (tokens : List Token) : Attributes :=
  tokens.foldl (addToken echo) Attributes.empty

def read (reader : AttributeReader) (text : Text) : Except CompileError Attributes :=
  let full := Shorthand.expand text
  match Token.all full with
  | [] =>
    if reader.strict && !full.all isBlank then .error (.malformedAttributes full)
    else .ok Attributes.empty
  | tokens => .ok (ofTokens reader.echo tokens)

end AttributeReader

end ComponentTags
