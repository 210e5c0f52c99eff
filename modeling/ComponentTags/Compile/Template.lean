import ComponentTags.Compile.Live

/-!
# Compiling templates

A template is compiled in passes, each over the text that the last one left. A variant is a
family of tags with its passes; a compiler runs the variants it is asked for, one after the other.
-/

namespace ComponentTags

/-- One pass over a template. -/
inductive Pass where
  | live
  | slots
  | selfClosing
  | opening
  | closing
  deriving DecidableEq

/-- A family of tags. -/
inductive Variant where
  | standard
  | live
  deriving DecidableEq

def Variant.passes : Variant → List Pass
  | standard => [.slots, .selfClosing, .opening, .closing]
  | live => [.live]

/-- All variants in the order in which they are compiled. -/
def Variant.all : List Variant :=
  [live, standard]

namespace Compiler

def runPass (t : Compiler) (template : Text) : Pass → Traced Text
  | .live => t.livePass template
  | .slots => t.slotPass template
  | .selfClosing => t.selfClosingPass template
  | .opening => t.openingPass template
  | .closing => pure (closeComponents template)

/-- Runs passes one after the other. -/
def runPasses (t : Compiler) : List Pass → Text → Traced Text
  | [], template => pure template
  | pass :: rest, template => do
    let template ← t.runPass template pass
    t.runPasses rest template

def compile (t : Compiler) (variants : List Variant) (template : Text) : Traced Text :=
  t.runPasses (variants.flatMap Variant.passes) template

end Compiler

end ComponentTags
