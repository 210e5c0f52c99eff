import ComponentTags.Text.Case.Data

/-!
# Upper and lower case

Case changes follow the full mappings of Unicode: one character may become several, and a
capital sigma at the end of a word has a lower case of its own.
-/

namespace ComponentTags.Text

open Case

namespace Case

/-- Where the run takes the code point `n`, if it is one of the run's. -/
def Run.image? (r : Run) (n : Nat) : Option Nat :=
  if r.first ≤ n ∧ n ≤ r.last ∧ (n - r.first) % r.stride = 0 then
    some (r.target + (n - r.first))
  else none

/-- The image of a character under a mapping given by its runs and its expansions. -/
def mapped (runs : List Run) (expansions : List (Nat × List Nat)) (c : Char) : Text :=
  match expansions.lookup c.toNat with
  | some image => image.map Char.ofNat
  | none =>
    match runs.findSome? (·.image? c.toNat) with
    | some image => [Char.ofNat image]
    | none => [c]

end Case

def upperChar (c : Char) : Text :=
  if c.toNat < 0x80 then [c.toUpper] else mapped upperRuns upperExpansions c

def lowerChar (c : Char) : Text :=
  if c.toNat < 0x80 then [c.toLower] else mapped lowerRuns lowerExpansions c

/-- Whether the first character that does not look through is a letter with case. -/
def meetsCased (text : Text) : Bool :=
  match text.dropWhile caseIgnorable.contains with
  | [] => false
  | c :: _ => cased.contains c

/-- The lower case of `text`, which follows the characters `before`, nearest first. A sigma after
a letter with case and before none is final. -/
def lowerAfter (before : Text) : Text → Text
  | [] => []
  | c :: cs =>
    (if c = 'Σ' then [if meetsCased before && !meetsCased cs then 'ς' else 'σ']
      else lowerChar c) ++ lowerAfter (c :: before) cs

def lower (text : Text) : Text :=
  lowerAfter [] text

def upperFirst : Text → Text
  | [] => []
  | c :: cs => upperChar c ++ cs

def lowerFirst : Text → Text
  | [] => []
  | c :: cs => lowerChar c ++ cs

end ComponentTags.Text
