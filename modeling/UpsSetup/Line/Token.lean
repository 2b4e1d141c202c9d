import UpsSetup.Text.Blank

/-!
# Tokens of a configuration line

A line is read in two steps.

1. `scan` takes it apart into pieces: white space, an equals sign, or a part of a word. A backslash
   makes the next character part of a word whatever it is, a pair of double quotes does so for all
   characters between them except the backslash and the quote, and a number sign outside quotes
   ends the line.
2. `join` puts adjacent parts of a word together. A quoted group counts as a part even when it is
   empty, so `""` is an empty token; an equals sign is a token of its own and separates words.

Both steps are structural recursions over their input.
-/

namespace UpsSetup.Line

open Text

/-- Why a line cannot be taken apart. -/
inductive Flaw where
  /-- The line ends in a backslash that has nothing to escape. -/
  | danglingEscape
  /-- A double quote is not closed on its line. -/
  | unterminatedQuote
  deriving DecidableEq

/-- The wording of a flaw. -/
def Flaw.message : Flaw → String
  | .danglingEscape => "dangling escape at end of line"
  | .unterminatedQuote => "unterminated quoted string"

/-- What a line consists of. -/
inductive Piece where
  /-- White space between words. -/
  | gap
  /-- An equals sign. -/
  | equals
  /-- Characters that belong to a word. -/
  | part (text : List Char)
  deriving DecidableEq

/-! ## Pieces -/

/-- Takes a line apart, where `quoted` tells whether its start lies between quotes. An opening quote
is an empty part, which is what makes `""` a token. -/
def scan : Bool → List Char → Except Flaw (List Piece)
  | quoted, [] => if quoted then .error .unterminatedQuote else .ok []
  | _, ['\\'] => .error .danglingEscape
  | quoted, '\\' :: c :: cs => (.part [c] :: ·) <$> scan quoted cs
  | true, c :: cs =>
    if c = '"' then scan false cs else (.part [c] :: ·) <$> scan true cs
  | false, c :: cs =>
    if c = '"' then (.part [] :: ·) <$> scan true cs
    else if c = '#' then .ok []
    else if isBlank c then (.gap :: ·) <$> scan false cs
    else if c = '=' then (.equals :: ·) <$> scan false cs
    else (.part [c] :: ·) <$> scan false cs

/-! ## Words -/

/-- The words in a list of pieces: first the one that touches the start of the list, if the list
starts with a part, then the others. -/
def join : List Piece → Option (List Char) × List (List Char)
  | [] => (none, [])
  | .gap :: ps => (none, (join ps).1.toList ++ (join ps).2)
  | .equals :: ps => (none, ['='] :: ((join ps).1.toList ++ (join ps).2))
  | .part t :: ps => (some (t ++ (join ps).1.getD []), (join ps).2)

/-- All words in a list of pieces. -/
def words (ps : List Piece) : List (List Char) :=
  (join ps).1.toList ++ (join ps).2

@[simp] theorem words_nil : words [] = [] := rfl

@[simp] theorem words_gap (ps : List Piece) : words (.gap :: ps) = words ps := by
  simp [words, join]

@[simp] theorem words_equals (ps : List Piece) : words (.equals :: ps) = ['='] :: words ps := by
  simp [words, join]

/-! ## Tokens -/

/-- Whether a character terminates a line. -/
def isTerminator (c : Char) : Bool := c = '\r' || c = '\n'

/-- The line without the terminators at its end. -/
def body (line : List Char) : List Char := dropEndWhile isTerminator line

/-- The tokens of a line. -/
def tokenize (line : String) : Except Flaw (List String) :=
  (fun ps => (words ps).map String.ofList) <$> scan false (body line.toList)

end UpsSetup.Line
