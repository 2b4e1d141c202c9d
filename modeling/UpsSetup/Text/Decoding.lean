import UpsSetup.Text.Cut
import UpsSetup.Text.Lines

/-!
# Lines from bytes

The bytes of a file are UTF-8. Bytes that are valid as a whole give all their lines (`decode_toUTF8`).
Bytes that are not still give some: a file is decoded in blocks of `blockSize` bytes, and the lines
that end in the blocks before the one in which the defect shows are there before it is found.

A defect shows at the first byte with which no character can go on, or at the end of the file if the
last character is cut off. One byte more is needed for a surrogate code point: its first two bytes
pass for a character that is cut off, and any byte after them is refused.

`Expected.next` is the step from byte to byte, and `defectFrom` follows it; both recursions are on the
list of bytes.
-/

namespace UpsSetup.Text

/-! ## Where a defect shows -/

/-- What the next byte has to be. -/
inductive Expected where
  /-- The first byte of a character. -/
  | start
  /-- A byte between two bounds; after it, `more` bytes between 0x80 and 0xBF complete the
  character. -/
  | within (low high : UInt8) (more : Nat)
  /-- The second byte after 0xED, which tells a character from a surrogate. -/
  | afterED
  /-- No byte at all: a surrogate has begun. -/
  | nothing
  deriving DecidableEq

namespace Expected

/-- The bytes that complete a character when `n` of the general form are left. -/
def tail : Nat → Expected
  | 0 => start
  | n + 1 => within 0x80 0xBF n

/-- What follows the first byte of a character. -/
def afterStart (b : UInt8) : Option Expected :=
  if b < 0x80 then some start
  else if b < 0xC2 then none
  else if b < 0xE0 then some (tail 1)
  else if b = 0xE0 then some (within 0xA0 0xBF 1)
  else if b = 0xED then some afterED
  else if b < 0xF0 then some (tail 2)
  else if b = 0xF0 then some (within 0x90 0xBF 2)
  else if b < 0xF4 then some (tail 3)
  else if b = 0xF4 then some (within 0x80 0x8F 2)
  else none

/-- What follows a byte, if the byte is as expected. -/
def next : Expected → UInt8 → Option Expected
  | start, b => afterStart b
  | within low high more, b => if low ≤ b ∧ b ≤ high then some (tail more) else none
  | afterED, b =>
    if b < 0x80 ∨ 0xBF < b then none else if b < 0xA0 then some (tail 1) else some nothing
  | nothing, _ => none

end Expected

/-- The number of bytes before the one at which a defect shows, where `position` bytes precede the
given ones. The end counts as a byte: there a character must not be left open. -/
def defectFrom (position : Nat) : Expected → List UInt8 → Option Nat
  | expected, [] => if expected = .start then none else some position
  | expected, b :: bs =>
    match expected.next b with
    | none => some position
    | some expected' => defectFrom (position + 1) expected' bs

/-! ## Lines before a defect -/

/-- The number of bytes that are decoded at a time. -/
def blockSize : Nat := 8192

/-- How many bytes are decoded before the defect is found: the blocks before that of the byte at
which it shows, or everything if it shows at the end. -/
def decodedBefore (size defect : Nat) : Nat :=
  if defect < size then defect / blockSize * blockSize else size

/-- The longest text that the first `n` bytes hold, where a character at the end may be cut off. -/
def textOfFirst (content : ByteArray) (n : Nat) : String :=
  ([0, 1, 2, 3].findSome? fun cut => String.fromUTF8? (content.extract 0 (n - cut))).getD ""

/-- The lines that end in a text which goes on. A carriage return at its end may be half of a line
end, so it ends no line yet. -/
def endedLines (s : String) : List String :=
  let cs := s.toList
  let cs := if cs.getLast? = some '\r' then cs.dropLast else cs
  match cutLastChars '\n' (unifyEndChars cs) with
  | none => []
  | some (before, _) => (cutLines (before ++ ['\n'])).map String.ofList

/-- The lines that the bytes of a file give, and whether these are all. -/
structure Decoded where
  lines : List String
  isWhole : Bool
  deriving DecidableEq

/-- The lines of the bytes of a file. -/
def decode (content : ByteArray) : Decoded :=
  match String.fromUTF8? content with
  | some s => ⟨lines (unifyEnds s), true⟩
  | none =>
    let defect := (defectFrom 0 .start content.data.toList).getD content.size
    ⟨endedLines (textOfFirst content (decodedBefore content.size defect)), false⟩

theorem fromUTF8?_toUTF8 (s : String) : String.fromUTF8? s.toUTF8 = some s := by
  have : s.toUTF8.IsValidUTF8 := s.isValidUTF8
  simp only [String.fromUTF8?, this, dite_true]
  rfl

/-- The bytes of a text are decoded to its lines, and nothing is left over. -/
theorem decode_toUTF8 (s : String) : decode s.toUTF8 = ⟨lines (unifyEnds s), true⟩ := by
  simp only [decode, fromUTF8?_toUTF8]

end UpsSetup.Text
