import ComponentTags.Tag.Find

/-!
# The kinds of tags

Components have tags that begin with `x-` or `x:`, slots are components of the name `slot`, and
live components have tags that begin with `livewire:`. Spaces may stand before these marks.
-/

namespace ComponentTags.Tag

open Text

/-! ## Heads -/

/-- The cursor behind `<` and the characters of a gap. -/
def afterBracket? (isGap : Char → Bool) (c : Cursor) : Option Cursor :=
  (c.expect? ['<']).map (·.skipWhile isGap)

def afterComponentMark? (c : Cursor) : Option Cursor :=
  c.expect? ['x', '-'] <|> c.expect? ['x', ':']

def liveMark : Text :=
  "livewire:".toList

/-- The name of the component for slots. -/
def slotName : Text :=
  "slot".toList

/-- The head that has its name behind the cursor. -/
def namedHead (c : Cursor) : Head :=
  let stop := c.skipWhile isTagNameChar
  { name := c.upTo stop, stop }

def componentHead? (c : Cursor) : Option Head := do
  let c ← afterBracket? isSpace c
  let c ← afterComponentMark? c
  return namedHead c

def liveHead? (c : Cursor) : Option Head := do
  let c ← afterBracket? isSpace c
  let c ← c.expect? liveMark
  return namedHead c

/-- The cursor behind `x-slot`. -/
def afterSlotMark? (isGap : Char → Bool) (c : Cursor) : Option Cursor := do
  let c ← afterBracket? isGap c
  let c ← afterComponentMark? c
  c.expect? slotName

/-- The length of the words with single hyphens between them at the front of a text; `inWord`
tells whether the character before is part of a word. -/
def hyphenatedLength (inWord : Bool) : Text → Nat
  | [] => 0
  | c :: cs =>
    if isWordChar c then hyphenatedLength true cs + 1
    else if inWord && c == '-' then
      match hyphenatedLength false cs with
      | 0 => 0
      | n + 1 => n + 2
    else 0

/-- The name of a slot behind a colon, and the cursor behind it. -/
def readInlineName (c : Cursor) : Text × Cursor :=
  match c.expect? [':'] with
  | none => ([], c)
  | some d =>
    match hyphenatedLength false d.rest with
    | 0 => ([], c)
    | n + 1 => (d.rest.take (n + 1), d.advance (n + 1))

/-- The head of a slot without the attribute that names it. -/
def slotHead? (c : Cursor) : Option Head := do
  let c ← afterSlotMark? isSpace c
  let (inline, stop) := readInlineName c
  return { inlineName := inline, stop }

/-- The head of a slot with the attribute that names it right behind. -/
def slotNameHead? (c : Cursor) : Option Head := do
  let head ← slotHead? c
  let d := head.stop.skipWhile isSpace
  if d.pos ≤ head.stop.pos then none
  else
    let (bound, d) :=
      match d.expect? [':'] with
      | some d => (true, d)
      | none => (false, d)
    let d ← d.expect? "name=".toList
    let value ← Token.value? d.rest
    return { head with
      nameAttribute := value
      nameBound := bound
      stop := d.advance value.length }

/-! ## Endings -/

/-- An angle bracket that does not end a self-closing tag, an arrow or a comparison. -/
def bracketEnd? (c : Cursor) : Option Cursor :=
  match c.before with
  | [] => c.expect? ['>']
  | a :: _ => if a = '/' ∨ a = '=' ∨ a = '-' then none else c.expect? ['>']

/-- The end of a self-closing tag. -/
def slashEnd? (c : Cursor) : Option Cursor :=
  c.expect? ['/', '>']

def eitherEnd? (c : Cursor) : Option Cursor :=
  c.expect? ['/', '>'] <|> c.expect? ['>']

/-! ## Grammars -/

/-- Tags that open a slot. -/
def Grammar.slot : Grammar where
  kind := .slot
  mayBegin c := (afterSlotMark? isBlank c).isSome
  heads := [slotNameHead?, slotHead?]
  ending := bracketEnd?
  directives := true
  boundVariables := false

/-- Tags of components that close themselves. -/
def Grammar.selfClosing : Grammar where
  kind := .selfClosing
  mayBegin c := ((afterBracket? isBlank c).bind afterComponentMark?).isSome
  heads := [componentHead?]
  ending := slashEnd?
  directives := true
  boundVariables := true

/-- Tags that open a component. -/
def Grammar.opening : Grammar where
  kind := .opening
  mayBegin c := ((afterBracket? isBlank c).bind afterComponentMark?).isSome
  heads := [componentHead?]
  ending := bracketEnd?
  directives := true
  boundVariables := true

/-- Tags of live components, which are printed at once whether they close themselves or not. -/
def Grammar.live : Grammar where
  kind := .selfClosing
  mayBegin c := ((afterBracket? isBlank c).bind (·.expect? liveMark)).isSome
  heads := [liveHead?]
  ending := eitherEnd?
  directives := false
  boundVariables := false

/-! ## Closing tags -/

/-- Finds the closing tag of a slot, with whatever stands in it. -/
def slotClosing? (c : Cursor) : Option (Unit × Nat) := do
  let d ← c.expect? ['<', '/']
  let d ← afterComponentMark? (d.skipWhile isBlank)
  let d ← d.expect? slotName
  let d ← (d.skipWhile (· != '>')).expect? ['>']
  return ((), d.pos - c.pos)

def componentClosing? (c : Cursor) : Option (Unit × Nat) := do
  let d ← c.expect? ['<', '/']
  let d ← afterComponentMark? (d.skipWhile isSpace)
  let d ← ((d.skipWhile isTagNameChar).skipWhile isSpace).expect? ['>']
  return ((), d.pos - c.pos)

end ComponentTags.Tag
