import ComponentTags.Config.Data
import ComponentTags.Text.Piece

/-!
# Reading JSON

A text is cut into tokens, and a machine with a stack of open lists and objects takes one token
after the other. Besides the numbers of JSON, `NaN`, `Infinity` and `-Infinity` are numbers.
Control characters in strings are refused, and so are whole numbers of more than 4300 digits. A
string with half of a surrogate pair in it is no text, and it is refused for that.
-/

namespace ComponentTags.Json

/-- Why a text is not read. -/
inductive Error where
  /-- The text is not JSON. -/
  | malformed
  /-- A whole number has too many digits. -/
  | tooManyDigits (count : Nat)
  /-- A string has half of a surrogate pair in it. -/
  | halfPair
  deriving DecidableEq

/-- The most digits that a whole number may have. -/
def digitLimit : Nat :=
  4300

def Error.message : Error → Text
  | malformed => "JSONDecodeError".toList
  | tooManyDigits count =>
    "Exceeds the limit (4300 digits) for integer string conversion: value has ".toList ++
      Nat.toDigits 10 count ++
      " digits; use sys.set_int_max_str_digits() to increase the limit".toList
  | halfPair => "surrogates not allowed".toList

inductive Token where
  /-- One of the marks between values. -/
  | mark (c : Char)
  /-- A value without parts. -/
  | atom (value : Data)
  /-- A whole number with too many digits. -/
  | overlong (digits : Nat)
  /-- A string with half of a surrogate pair in it. -/
  | halfPair

/-! ## Strings -/

/-- The value of a hexadecimal digit. -/
def hexValue? (c : Char) : Option Nat :=
  if '0' ≤ c ∧ c ≤ '9' then some (c.toNat - '0'.toNat)
  else if 'a' ≤ c ∧ c ≤ 'f' then some (c.toNat - 'a'.toNat + 10)
  else if 'A' ≤ c ∧ c ≤ 'F' then some (c.toNat - 'A'.toNat + 10)
  else none

/-- The number that four hexadecimal digits stand for. -/
def hexUnit? (a b c d : Char) : Option Nat := do
  return ((← hexValue? a) * 16 + (← hexValue? b)) * 256 + (← hexValue? c) * 16 + (← hexValue? d)

/-- The character of a code unit; half of a pair is none. -/
def unitChar? (n : Nat) : Option Char :=
  if 0xD800 ≤ n ∧ n ≤ 0xDFFF then none else some (Char.ofNat n)

/-- The character that a letter stands for behind a backslash. -/
def escape? : Char → Option Char
  | '"' => some '"'
  | '\\' => some '\\'
  | '/' => some '/'
  | 'b' => some '\x08'
  | 'f' => some '\x0c'
  | 'n' => some '\n'
  | 'r' => some '\r'
  | 't' => some '\t'
  | _ => none

/-- The code units of a string with one more, read from `n` characters. -/
def prepend (unit n : Nat) (units : List Nat × Nat) : List Nat × Nat :=
  (unit :: units.1, units.2 + n)

/-- The code units of a string behind its opening quote, and its length with the closing quote. -/
def units? : Text → Option (List Nat × Nat)
  | [] => none
  | '"' :: _ => some ([], 1)
  | '\\' :: 'u' :: a :: b :: c :: d :: rest =>
    match hexUnit? a b c d with
    | some unit => (units? rest).map (prepend unit 6)
    | none => none
  | '\\' :: e :: rest =>
    match escape? e with
    | some c => (units? rest).map (prepend c.toNat 2)
    | none => none
  | c :: rest =>
    if c = '\\' ∨ c.toNat < 0x20 then none else (units? rest).map (prepend c.toNat 1)

/-- The characters of code units, two halves of a pair together. -/
def ofUnits? : List Nat → Option Text
  | [] => some []
  | [n] => (unitChar? n).map ([·])
  | high :: low :: rest =>
    if 0xD800 ≤ high ∧ high ≤ 0xDBFF ∧ 0xDC00 ≤ low ∧ low ≤ 0xDFFF then
      let c := Char.ofNat (0x10000 + (high - 0xD800) * 0x400 + (low - 0xDC00))
      (ofUnits? rest).map (c :: ·)
    else (unitChar? high).bind fun c => (ofUnits? (low :: rest)).map (c :: ·)

/-- The string behind its opening quote, and its length with both quotes. -/
def string? (text : Text) : Option (Token × Nat) :=
  match units? text with
  | none => none
  | some (units, n) =>
    match ofUnits? units with
    | some value => some (.atom (.text value), n + 1)
    | none => some (.halfPair, n + 1)

/-! ## Numbers -/

/-- The length of the whole number that a text begins with, without a sign. -/
def wholeLength? : Text → Option Nat
  | '0' :: _ => some 1
  | text =>
    match (text.takeWhile Char.isDigit).length with
    | 0 => none
    | n + 1 => some (n + 1)

/-- The length of the fraction that a text begins with. -/
def fractionLength : Text → Nat
  | '.' :: rest =>
    match (rest.takeWhile Char.isDigit).length with
    | 0 => 0
    | n + 1 => n + 2
  | _ => 0

/-- The length of the digits behind a sign, with the sign and the letter of an exponent. -/
def exponentDigits (sign : Nat) (rest : Text) : Nat :=
  match (rest.takeWhile Char.isDigit).length with
  | 0 => 0
  | n + 1 => n + 2 + sign

/-- The length of the exponent that a text begins with. -/
def exponentLength : Text → Nat
  | c :: rest =>
    if c = 'e' ∨ c = 'E' then
      match rest with
      | '+' :: rest => exponentDigits 1 rest
      | '-' :: rest => exponentDigits 1 rest
      | rest => exponentDigits 0 rest
    else 0
  | [] => 0

/-- The number that a text begins with, and its length. -/
def number? (text : Text) : Option (Token × Nat) :=
  let sign := if ['-'].isPrefixOf text then 1 else 0
  match wholeLength? (text.drop sign) with
  | none => none
  | some whole =>
    let fraction := fractionLength (text.drop (sign + whole))
    let exponent := exponentLength (text.drop (sign + whole + fraction))
    let size := sign + whole + fraction + exponent
    if fraction + exponent = 0 ∧ digitLimit < whole then some (.overlong whole, size)
    else some (.atom (.number (text.take size)), size)

/-! ## Tokens -/

/-- The words that stand for values. -/
def words : List (Text × Data) :=
  [("null".toList, .null), ("true".toList, .bool true), ("false".toList, .bool false),
    ("NaN".toList, .number "NaN".toList), ("Infinity".toList, .number "Infinity".toList),
    ("-Infinity".toList, .number "-Infinity".toList)]

def word? (text : Text) : Option (Token × Nat) :=
  (words.find? fun w => w.1.isPrefixOf text).map fun w => (.atom w.2, w.1.length)

def token? (c : Cursor) : Option (Token × Nat) :=
  match c.rest with
  | '"' :: rest => string? rest
  | a :: _ =>
    if "[]\x7b\x7d,:".toList.contains a then some (.mark a, 1)
    else word? c.rest <|> number? c.rest
  | [] => none

/-- Whether a character may stand between tokens. -/
def isGap (c : Char) : Bool :=
  c == ' ' || c == '\t' || c == '\n' || c == '\r'

/-! ## Values -/

/-- A list or an object that is not closed yet. -/
inductive Open where
  /-- A list with its items so far, the last one first. -/
  | list (done : List Data)
  /-- An object with its members so far, and the key of the next one. -/
  | object (done : List (Text × Data)) (key : Text)

/-- What may come next. -/
inductive Awaiting where
  | value
  /-- The first item of a list, or its end. -/
  | firstItem
  /-- The first key of an object, or its end. -/
  | firstKey
  /-- A further key of an object. -/
  | key (done : List (Text × Data))
  /-- The colon behind a key. -/
  | colon (done : List (Text × Data)) (key : Text)
  /-- What follows a value. -/
  | more (value : Data)

structure State where
  awaiting : Awaiting
  stack : List Open

/-- Takes a token where a value is awaited. -/
def takeValue (stack : List Open) : Token → Except Error State
  | .atom value => .ok ⟨.more value, stack⟩
  | .mark '[' => .ok ⟨.firstItem, stack⟩
  | .mark '{' => .ok ⟨.firstKey, stack⟩
  | .mark _ => .error .malformed
  | .overlong n => .error (.tooManyDigits n)
  | .halfPair => .error .halfPair

/-- Takes a token where a key is awaited. -/
def takeKey (done : List (Text × Data)) (stack : List Open) : Token → Except Error State
  | .atom (.text key) => .ok ⟨.colon done key, stack⟩
  | .halfPair => .error .halfPair
  | _ => .error .malformed

/-- Takes a token behind a value. -/
def takeMore (value : Data) : List Open → Token → Except Error State
  | .list done :: stack, .mark ',' => .ok ⟨.value, .list (value :: done) :: stack⟩
  | .list done :: stack, .mark ']' => .ok ⟨.more (.list (value :: done).reverse), stack⟩
  | .object done key :: stack, .mark ',' => .ok ⟨.key (Entries.put key value done), stack⟩
  | .object done key :: stack, .mark '}' =>
    .ok ⟨.more (.object (Entries.put key value done)), stack⟩
  | _, _ => .error .malformed

def State.take (s : State) (token : Token) : Except Error State :=
  match s.awaiting with
  | .value => takeValue s.stack token
  | .firstItem =>
    match token with
    | .mark ']' => .ok ⟨.more (.list []), s.stack⟩
    | _ => takeValue (.list [] :: s.stack) token
  | .firstKey =>
    match token with
    | .mark '}' => .ok ⟨.more (.object []), s.stack⟩
    | _ => takeKey [] s.stack token
  | .key done => takeKey done s.stack token
  | .colon done key =>
    match token with
    | .mark ':' => .ok ⟨.value, .object done key :: s.stack⟩
    | _ => .error .malformed
  | .more value => takeMore value s.stack token

/-- Takes a piece of the text; between tokens only gaps may stand. -/
def State.takePiece (s : State) : Piece Token → Except Error State
  | .plain c => if isGap c then .ok s else .error .malformed
  | .found token => s.take token

def read (text : Text) : Except Error Data :=
  match ((Cursor.start text).pieces token?).foldlM State.takePiece ⟨.value, []⟩ with
  | .error e => .error e
  | .ok ⟨.more value, []⟩ => .ok value
  | .ok _ => .error .malformed

end ComponentTags.Json
