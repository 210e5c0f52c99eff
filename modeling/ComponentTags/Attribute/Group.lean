import ComponentTags.Text.Basic

/-!
# Parenthesised groups

A group begins with an opening parenthesis and ends with the parenthesis that closes it. Only
parentheses count; quotes and comments inside a group are not looked at.
-/

namespace ComponentTags.Group

/-- The number of characters up to the parenthesis that closes the last of `depth` open ones,
with that parenthesis. -/
def closing? (depth : Nat) : Text → Option Nat
  | [] => none
  | c :: cs =>
    if c = '(' then (closing? (depth + 1) cs).map (· + 1)
    else if c = ')' then
      if depth ≤ 1 then some 1 else (closing? (depth - 1) cs).map (· + 1)
    else (closing? depth cs).map (· + 1)

def length? : Text → Option Nat
  | [] => none
  | c :: cs => if c = '(' then (closing? 1 cs).map (· + 1) else none

/-- Where the group that begins at `start` ends in a text. -/
def end? (text : Text) (start : Nat) : Option Nat :=
  (length? (text.drop start)).map (start + ·)

end ComponentTags.Group
