import ComponentTags.Compile.Standard

/-!
# Compiling live components

The tag of a live component is compiled to a statement that prints it. What the tag stands for is
left to the runtime; only the attributes are compiled.
-/

namespace ComponentTags

/-- The keys of a live component: those without an underscore in camel case, and those with one
as they are and, as far as no other key has that name, in camel case too. -/
def liveKeys (values : Table Text) : Table Text :=
  let named := Table.ofList (values.entries.map fun e =>
    (if e.1.contains '_' then e.1 else Name.camelCase e.1, e.2))
  let aliases := (named.entries.filter fun e => e.1.contains '_').map fun e =>
    (Name.camelCase e.1, e.2)
  (Table.ofList aliases).putAll named.entries

/-- What stands for the tags of reserved names. -/
def reservedLive? (name : Text) : Option Text :=
  if name = "styles".toList then some Directive.liveStyles
  else if name = "scripts".toList then some Directive.liveScripts
  else none

namespace Compiler

/-- The statement for the tag of a live component. -/
def liveDirective (t : Compiler) (m : Tag) : Traced Text :=
  match reservedLive? m.name with
  | some directive => pure directive
  | none => do
    let attributes ← Traced.ofExcept (t.reader.read m.attributes)
    return Directive.printed Directive.anonymousComponent
      (plainEntries (liveKeys attributes.values))

def livePass (t : Compiler) (template : Text) : Traced Text :=
  Piece.expandM t.liveDirective (Tag.Grammar.live.pieces template)

end Compiler

end ComponentTags
