import ComponentTags.Text.Basic

/-!
# Paths

A path is a list of names under a root, or relative. Repeated slashes and the name `.` have no
meaning; two slashes at the front, and no more than two, are kept in writing. All roots are the
same place.
-/

namespace ComponentTags

/-- What a path starts from. -/
inductive Root where
  | relative
  | single
  | double
  deriving DecidableEq

structure Path where
  root : Root
  parts : List Text
  deriving DecidableEq

namespace Path

/-- The root that a text begins with. -/
def rootOf : Text → Root
  | '/' :: '/' :: '/' :: _ => .single
  | '/' :: '/' :: _ => .double
  | '/' :: _ => .single
  | _ => .relative

def ofText (text : Text) : Path :=
  ⟨rootOf text, (text.splitOn '/').filter fun part => part != [] && part != ['.']⟩

def rootText : Root → Text
  | .relative => []
  | .single => ['/']
  | .double => ['/', '/']

/-- The path in writing; the relative path without names is `.`. -/
def toText (p : Path) : Text :=
  if p.root = .relative ∧ p.parts = [] then ['.']
  else rootText p.root ++ Text.joinWith ['/'] p.parts

/-- Whether a path has a root. -/
def isAbsolute (p : Path) : Bool :=
  p.root != .relative

/-- A path seen from a directory; a path with a root is itself. -/
def join (directory p : Path) : Path :=
  if p.isAbsolute then p else ⟨directory.root, directory.parts ++ p.parts⟩

/-- The names with one more, where `..` takes the last one away. -/
def climb (parts : List Text) (part : Text) : List Text :=
  if part = ['.', '.'] then parts.dropLast else parts ++ [part]

/-- The place of a path that is seen from a directory: the names from the root on, without `..`.
All roots are one place, however they are written. -/
def resolveFrom (directory p : Path) : Path :=
  ⟨.single, (directory.join p).parts.foldl climb []⟩

def parent (p : Path) : Path :=
  ⟨p.root, p.parts.dropLast⟩

end Path

end ComponentTags
