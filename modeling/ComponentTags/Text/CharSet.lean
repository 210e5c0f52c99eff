import ComponentTags.Text.Basic

/-!
# Sets of characters

A large set of characters is given by the code points at which membership changes, in
increasing order: the first of them is the smallest member, the second the first code point
after it that is no member, and so on.
-/

namespace ComponentTags

/-- A set of characters, given by the code points at which membership changes. -/
structure CharSet where
  changes : List Nat

namespace CharSet

/-- A character is a member if membership changed an odd number of times up to it. -/
def contains (s : CharSet) (c : Char) : Bool :=
  (s.changes.takeWhile (· ≤ c.toNat)).length % 2 == 1

end CharSet

end ComponentTags
