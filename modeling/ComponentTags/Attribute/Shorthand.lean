import ComponentTags.Attribute.Group
import ComponentTags.Directive
import ComponentTags.Text.Blank
import ComponentTags.Text.Piece

/-!
# Shorthand attributes

Attributes may be written short. The short forms are brought to the one form `bind:name="value"`
in this order:

1. `:$title` becomes `:title="$title"`;
2. the attribute bag, `$attributes->merge([...])` in an echo, becomes the attribute `attributes`;
3. `@class(...)` and `@style(...)` become calls in the attributes `class` and `style`;
4. `:title="$title"` becomes `bind:title="$title"`.
-/

namespace ComponentTags.Shorthand

open Text

/-! ## Variables -/

/-- Finds a space and `:$name`. -/
def boundVariable? (c : Cursor) : Option (Text × Nat) :=
  match c.rest with
  | a :: ':' :: '$' :: rest =>
    let name := rest.takeWhile isWordChar
    if isSpace a && !name.isEmpty then some (name, name.length + 3) else none
  | _ => none

/-- The attribute that binds a name to the variable of that name. -/
def variableAttribute (name : Text) : Text :=
  [' ', ':'] ++ name ++ ['=', '"', '$'] ++ name ++ ['"']

def expandVariables (text : Text) : Text :=
  Piece.expand variableAttribute ((Cursor.start text).pieces boundVariable?)

/-! ## The attribute bag -/

/-- The variable that holds the attribute bag. -/
def bagName : Text :=
  "$attributes".toList

/-- What an echo of the attribute bag at the front of a text has after the name of the bag, and
the length of the echo. -/
def bag? (text : Text) : Option (Text × Nat) :=
  match text with
  | '{' :: '{' :: rest =>
    let blanks := rest.takeWhile isBlank
    match bagName.isPrefixOf? (rest.drop blanks.length) with
    | some tail =>
      let inner := tail.takeWhile (· != '}')
      match tail.drop inner.length with
      | '}' :: '}' :: _ => some (inner, blanks.length + bagName.length + inner.length + 4)
      | _ => none
    | none => none
  | _ => none

/-- Finds an echo of the attribute bag at the start of the text or after blanks. -/
def bagEcho? (c : Cursor) : Option (Text × Nat) :=
  let blanks := c.rest.takeWhile isBlank
  if blanks.isEmpty && c.pos != 0 then none
  else
    match bag? (c.rest.drop blanks.length) with
    | some (inner, n) => some (trimEnd isBlank inner, blanks.length + n)
    | none => none

/-- The attribute that hands the attribute bag on. -/
def bagAttribute (inner : Text) : Text :=
  " :attributes=\"".toList ++ bagName ++ inner ++ ['"']

/-- Writes an echo of the attribute bag as an attribute. -/
def expandBag (text : Text) : Text :=
  Piece.expand bagAttribute ((Cursor.start text).pieces bagEcho?)

/-! ## Calls -/

/-- The beginning of a call, up to its parenthesis. -/
def callOpening (directive : Text) : Text :=
  '@' :: directive ++ ['(']

/-- Finds a call whose parentheses close, and its arguments with the parentheses. -/
def call? (directive : Text) (c : Cursor) : Option (Text × Nat) :=
  if (callOpening directive).isPrefixOf c.rest then
    let group := c.rest.drop (directive.length + 1)
    match Group.length? group with
    | some n => some (group.take n, directive.length + 1 + n)
    | none => none
  else none

/-- The attribute for a call: the helper applied to the arguments, in which apostrophes stand for
double quotes. -/
def callAttribute (directive helper arguments : Text) : Text :=
  ':' :: directive ++ ['=', '"'] ++ helper ++ replaceChar '"' ['\x27'] arguments ++ ['"']

/-- Writes the calls of a directive as attributes. A call that does not close stays. -/
def expandCalls (directive helper text : Text) : Text :=
  Piece.expand (callAttribute directive helper) ((Cursor.start text).pieces (call? directive))

/-- The name of the directive for style classes. -/
def classDirective : Text :=
  "class".toList

/-- The name of the directive for inline styles. -/
def styleDirective : Text :=
  "style".toList

/-- Writes `@class(...)` as an attribute. -/
def expandClasses (text : Text) : Text :=
  expandCalls classDirective Directive.cssClasses text

/-- Writes `@style(...)` as an attribute. -/
def expandStyles (text : Text) : Text :=
  expandCalls styleDirective Directive.cssStyles text

/-! ## Bindings -/

/-- Begins the name of an attribute whose value is an expression. -/
def bindMark : Text :=
  "bind:".toList

/-- Finds a single colon, a name and an equals sign at the start of the text or after spaces. -/
def binding? (c : Cursor) : Option (Text × Nat) :=
  let spaces := c.rest.takeWhile isSpace
  if spaces.isEmpty && c.pos != 0 then none
  else
    match c.rest.drop spaces.length with
    | ':' :: rest =>
      let name := rest.takeWhile isAttributeNameChar
      match name, rest.drop name.length with
      | a :: _, '=' :: _ =>
        if a = ':' then none else some (name, spaces.length + name.length + 2)
      | _, _ => none
    | _ => none

/-- The beginning of a bound attribute in full. -/
def bindingStart (name : Text) : Text :=
  ' ' :: bindMark ++ name ++ ['=']

/-- Writes `:name=` as `bind:name=`. -/
def expandBindings (text : Text) : Text :=
  Piece.expand bindingStart ((Cursor.start text).pieces binding?)

/-- Writes every short form in full. -/
def expand (text : Text) : Text :=
  expandBindings (expandStyles (expandClasses (expandBag (expandVariables text))))

end ComponentTags.Shorthand
