import ComponentTags.Attribute.Parse
import ComponentTags.Component.Parameters
import ComponentTags.Component.Resolve
import ComponentTags.Tag.Kinds

/-!
# Compiling components and slots

The tags of components and slots are compiled in four passes, each over the text that the last
one left: slots, self-closing tags, opening tags, closing tags. Closing tags are not paired with
opening ones.
-/

namespace ComponentTags

open Text

/-- What is needed to compile tags. -/
structure Compiler where
  resolver : Resolver
  reader : AttributeReader

/-- The parameter that holds the attributes which a constructor does not take. -/
def restParameter : Text :=
  "_data".toList

def arrayOf (entries : Text) : Text :=
  ['['] ++ entries ++ [']']

namespace Compiler

/-- The parameters for a component without a class. -/
def anonymousParameters (tag : Text) (target : Target) (attributes : Attributes) :
    Table Text :=
  let view :=
    if Directive.mailMark.isPrefixOf tag then Directive.mailExpression tag
    else ['\x27'] ++ target.name ++ ['\x27']
  Table.ofList [("view".toList, view),
    ("data".toList, arrayOf (plainEntries attributes.values))]

/-- The parameters for a component with a class. -/
def classParameters (classes : Classes) (className : Text) (attributes : Attributes) :
    Table Text :=
  let (taken, rest) := classes.divide className attributes.values
  (Table.ofList (taken.entries.map fun e => (Name.camelCase e.1, e.2))).put restParameter
    (arrayOf (plainEntries rest))

/-- The directive for a component of which it is known what it stands for. -/
def directiveFor (classes : Classes) (tag : Text) (target : Target)
    (attributes : Attributes) : Text :=
  if target.isClass then
    Directive.component target.name
      (plainEntries (classParameters classes target.name attributes))
  else
    Directive.component Directive.anonymousComponent
      (plainEntries (anonymousParameters tag target attributes))

/-- The directive that begins a component. -/
def componentDirective (t : Compiler) (tag : Text) (attributes : Attributes) :
    Traced Text := do
  let target ← t.resolver.resolve tag
  return directiveFor t.resolver.classes tag target attributes

/-- The name of a slot as an expression. A name with hyphens behind a colon is brought to camel
case. -/
def slotExpression (m : Tag) : Text :=
  let name := unquoted (if m.inlineName = [] then m.nameAttribute else m.inlineName)
  let name := if m.inlineName ≠ [] ∧ name.contains '-' then Name.camelCase name else name
  if m.nameBound then name else ['\x27'] ++ name ++ ['\x27']

def slotDirective (t : Compiler) (m : Tag) : Traced Text := do
  let attributes ← Traced.ofExcept (t.reader.read m.attributes)
  return Directive.slot (slotExpression m) attributes.sanitizedEntries

def selfClosingDirective (t : Compiler) (m : Tag) : Traced Text := do
  Traced.log (.selfClosingTag m.name)
  let attributes ← Traced.ofExcept (t.reader.read m.attributes)
  let directive ← t.componentDirective m.name attributes
  return directive ++ Directive.selfClosing

def openingDirective (t : Compiler) (m : Tag) : Traced Text := do
  Traced.log (.openingTag m.name)
  let attributes ← Traced.ofExcept (t.reader.read m.attributes)
  t.componentDirective m.name attributes

/-- Compiles the closing tags of slots. -/
def closeSlots (template : Text) : Text :=
  Piece.expand (fun _ => Directive.slotClosing) ((Cursor.start template).pieces Tag.slotClosing?)

/-- Compiles the closing tags of components. -/
def closeComponents (template : Text) : Text :=
  Piece.expand (fun _ => Directive.closing)
    ((Cursor.start template).pieces Tag.componentClosing?)

def slotPass (t : Compiler) (template : Text) : Traced Text :=
  closeSlots <$> Piece.expandM t.slotDirective (Tag.Grammar.slot.pieces template)

def selfClosingPass (t : Compiler) (template : Text) : Traced Text :=
  Piece.expandM t.selfClosingDirective (Tag.Grammar.selfClosing.pieces template)

def openingPass (t : Compiler) (template : Text) : Traced Text :=
  Piece.expandM t.openingDirective (Tag.Grammar.opening.pieces template)

end Compiler

end ComponentTags
