import ComponentTags.Compile.Template

/-!
# What commands stand on

The commands leave some things to the libraries that they are written with: command lines are read,
errors become statuses, and texts are printed by these. What they do is no matter of the commands,
so it is a parameter of them.
-/

namespace ComponentTags.Command

/-! ## Requests -/

/-- What is to be compiled, and how. -/
structure CompileRequest where
  /-- The name of the template; a hyphen stands for the standard input. -/
  template : Text
  config : Option Text
  variants : List Variant
  /-- The name of the file for the result. -/
  output : Option Text
  strict : Bool
  verbose : Bool

/-- Which tag is asked about. -/
structure ResolveRequest where
  tag : Text
  config : Option Text
  verbose : Bool

/-- What a command line asks for. -/
inductive Request where
  | compile (request : CompileRequest)
  | resolve (request : ResolveRequest)
  /-- A text to be shown, such as how the program is used. -/
  | shown (text : Text)

/-! ## Platforms -/

/-- The libraries under the commands. Where one of them can fail, it says why. -/
structure Platform where
  /-- What the words of a command line ask for. -/
  read : List Text → Except Text Request
  /-- The status for a command line that makes no sense, and for a bad parameter in one. -/
  badParameter : Nat
  /-- The status for an error that a command reports. -/
  exception : Nat
  /-- The status for an error that nobody expects. -/
  crash : Nat
  /-- What comes out at the standard output for a text that is printed there. -/
  echo : Text → Except Text Text
  /-- What comes out at the console for a line with markup. -/
  print : Text → Except Text Text
  /-- What is said if reading a text as JSON runs out of stack. -/
  overflow? : Text → Option Text

end ComponentTags.Command
