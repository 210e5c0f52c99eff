import ComponentTags.Table

/-!
# Component classes

The compiler asks a registry whether a class exists and which parameters its constructor has. A
class table is a registry of classes that are declared one by one; a leading backslash of a class
name has no meaning in it.
-/

namespace ComponentTags

/-- What the compiler asks about classes. -/
structure Classes where
  declared : Text → Bool
  parameters : Text → List Text

/-- How a parameter takes its arguments. -/
inductive ParameterKind where
  | positionalOnly
  | positional
  /-- All positional arguments that are left. -/
  | positionalRest
  | namedOnly
  /-- All named arguments that are left. -/
  | namedRest
  deriving DecidableEq

structure Parameter where
  name : Text
  kind : ParameterKind

/-- Whether a parameter stands for one argument; `self` stands for the receiver. -/
def Parameter.isOwn (p : Parameter) : Bool :=
  p.name != "self".toList && p.kind != .positionalRest && p.kind != .namedRest

/-- How the parameters of a class are declared. -/
inductive Declaration where
  /-- No parameters. -/
  | none
  /-- The names of the parameters. -/
  | names (names : List Text)
  /-- One parameter for each character. -/
  | letters (text : Text)
  /-- The parameters of a constructor. -/
  | signature (parameters : List Parameter)

def Declaration.parameters : Declaration → List Text
  | none => []
  | names texts => texts
  | letters text => text.map fun c => [c]
  | signature ps => (ps.filter Parameter.isOwn).map Parameter.name

/-- Classes that are declared one by one. -/
structure ClassTable where
  classes : Table Declaration := .empty

namespace ClassTable

/-- A class name without leading backslashes. -/
def key (name : Text) : Text :=
  name.dropWhile (· == '\\')

/-- The table with one more class. -/
def register (t : ClassTable) (name : Text) (declaration : Declaration) : ClassTable :=
  ⟨t.classes.put (key name) declaration⟩

def ofList (classes : List (Text × Declaration)) : ClassTable :=
  classes.foldl (fun t e => t.register e.1 e.2) {}

def declared (t : ClassTable) (name : Text) : Bool :=
  t.classes.has (key name)

/-- The parameters of a class; a class that is not in the table has none. -/
def parameters (t : ClassTable) (name : Text) : List Text :=
  match t.classes.get? (key name) with
  | some declaration => declaration.parameters
  | none => []

/-- The table as a registry. -/
def toClasses (t : ClassTable) : Classes :=
  ⟨t.declared, t.parameters⟩

end ClassTable

end ComponentTags
