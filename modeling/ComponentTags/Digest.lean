import ComponentTags.Text.Basic

/-!
# Digests

The MD5 digest of a text in UTF-8, in hexadecimal. It names a directory of views by a text that
is a valid hint.
-/

namespace ComponentTags.Digest

/-- The four words that the digest is made of. -/
structure State where
  a : UInt32
  b : UInt32
  c : UInt32
  d : UInt32

/-- The words before the first block. -/
def State.initial : State :=
  ⟨0x67452301, 0xEFCDAB89, 0x98BADCFE, 0x10325476⟩

/-- How far each step rotates. -/
def rotations : List Nat :=
  [7, 12, 17, 22, 7, 12, 17, 22, 7, 12, 17, 22, 7, 12, 17, 22,
    5, 9, 14, 20, 5, 9, 14, 20, 5, 9, 14, 20, 5, 9, 14, 20,
    4, 11, 16, 23, 4, 11, 16, 23, 4, 11, 16, 23, 4, 11, 16, 23,
    6, 10, 15, 21, 6, 10, 15, 21, 6, 10, 15, 21, 6, 10, 15, 21]

/-- What each step adds. -/
def sines : List UInt32 :=
  [0xD76AA478, 0xE8C7B756, 0x242070DB, 0xC1BDCEEE, 0xF57C0FAF, 0x4787C62A, 0xA8304613, 0xFD469501,
    0x698098D8, 0x8B44F7AF, 0xFFFF5BB1, 0x895CD7BE, 0x6B901122, 0xFD987193, 0xA679438E, 0x49B40821,
    0xF61E2562, 0xC040B340, 0x265E5A51, 0xE9B6C7AA, 0xD62F105D, 0x02441453, 0xD8A1E681, 0xE7D3FBC8,
    0x21E1CDE6, 0xC33707D6, 0xF4D50D87, 0x455A14ED, 0xA9E3E905, 0xFCEFA3F8, 0x676F02D9, 0x8D2A4C8A,
    0xFFFA3942, 0x8771F681, 0x6D9D6122, 0xFDE5380C, 0xA4BEEA44, 0x4BDECFA9, 0xF6BB4B60, 0xBEBFBC70,
    0x289B7EC6, 0xEAA127FA, 0xD4EF3085, 0x04881D05, 0xD9D4D039, 0xE6DB99E5, 0x1FA27CF8, 0xC4AC5665,
    0xF4292244, 0x432AFF97, 0xAB9423A7, 0xFC93A039, 0x655B59C3, 0x8F0CCC92, 0xFFEFF47D, 0x85845DD1,
    0x6FA87E4F, 0xFE2CE6E0, 0xA3014314, 0x4E0811A1, 0xF7537E82, 0xBD3AF235, 0x2AD7D2BB, 0xEB86D391]

/-- The rotation and the addend of each step, with its number. -/
def steps : List (Nat × Nat × UInt32) :=
  (List.range 64).zip (rotations.zip sines)

def rotateLeft (w : UInt32) (n : Nat) : UInt32 :=
  (w <<< n.toUInt32) ||| (w >>> (32 - n).toUInt32)

/-- The mixed words of a step, and the word of the block that it takes. -/
def mix (i : Nat) (s : State) : UInt32 × Nat :=
  if i < 16 then ((s.b &&& s.c) ||| (~~~s.b &&& s.d), i)
  else if i < 32 then ((s.d &&& s.b) ||| (~~~s.d &&& s.c), (5 * i + 1) % 16)
  else if i < 48 then (s.b ^^^ s.c ^^^ s.d, (3 * i + 5) % 16)
  else (s.c ^^^ (s.b ||| ~~~s.d), (7 * i) % 16)

/-- One step with the words of a block. -/
def step (block : List UInt32) (s : State) (i : Nat × Nat × UInt32) : State :=
  let (f, g) := mix i.1 s
  let sum := s.a + f + i.2.2 + block.getD g 0
  ⟨s.d, s.b + rotateLeft sum i.2.1, s.b, s.c⟩

/-- The state after one more block. -/
def absorb (s : State) (block : List UInt32) : State :=
  let t := steps.foldl (step block) s
  ⟨s.a + t.a, s.b + t.b, s.c + t.c, s.d + t.d⟩

/-- The bytes of a number, lowest first. -/
def littleEndian (count n : Nat) : List UInt8 :=
  (List.range count).map fun i => (n >>> (8 * i)).toUInt8

/-- The bytes with a mark, zeros up to eight bytes before the end of a block, and their number of
bits. -/
def padded (bytes : List UInt8) : List UInt8 :=
  bytes ++ [0x80] ++ List.replicate ((119 - bytes.length % 64) % 64) 0 ++
    littleEndian 8 (8 * bytes.length)

def word (bytes : List UInt8) (i : Nat) : UInt32 :=
  ((bytes.drop (4 * i)).take 4).foldr (fun byte w => w * 256 + byte.toUInt32) 0

/-- Some bytes as blocks of sixteen words. -/
def blocks (bytes : List UInt8) : List (List UInt32) :=
  (List.range (bytes.length / 64)).map fun i =>
    (List.range 16).map (word (bytes.drop (64 * i)))

/-- The two hexadecimal digits of a byte. -/
def hexByte (byte : UInt8) : Text :=
  [Nat.digitChar (byte.toNat / 16), Nat.digitChar (byte.toNat % 16)]

/-- The MD5 digest of some bytes, in hexadecimal. -/
def ofBytes (bytes : List UInt8) : Text :=
  let s := (blocks (padded bytes)).foldl absorb State.initial
  [s.a, s.b, s.c, s.d].flatMap fun w => (littleEndian 4 w.toNat).flatMap hexByte

/-- The MD5 digest of a text in UTF-8, in hexadecimal. -/
def ofText (text : Text) : Text :=
  ofBytes (String.ofList text).toUTF8.toList

end ComponentTags.Digest
