import UpsSetup.Document.Fault
import UpsSetup.Text.Lines

/-!
# Documents

What the configuration files have in common. A document is read line by line: blank lines are
skipped, a line that starts with a number sign is a comment, and the tokens of every other line are
handed to the document, which takes them or rejects them. Reading stops at the first line that is
rejected and keeps what the lines before it gave, so a failed reading is the reading of a prefix
(`Reading.ofLines`).

A document is written as a list of lines.
-/

namespace UpsSetup

/-- The configuration files. -/
inductive DocumentKind where
  | nut
  | upsmon
  | upsd
  | ups
  deriving DecidableEq

namespace DocumentKind

/-- The name of the file. -/
def fileName : DocumentKind → String
  | nut => "nut.conf"
  | upsmon => "upsmon.conf"
  | upsd => "upsd.conf"
  | ups => "ups.conf"

/-- What messages call a document. -/
def title : DocumentKind → String
  | nut => "NutConfiguration"
  | upsmon => "UpsmonConfiguration"
  | upsd => "UpsdConfiguration"
  | ups => "UpsConfiguration"

end DocumentKind

/-! ## Content of a line -/

/-- What a line holds. -/
inductive Content where
  | blank
  /-- A comment with its number sign, trimmed. -/
  | comment (text : String)
  /-- One or more tokens. -/
  | tokens (first : String) (rest : List String)
  deriving DecidableEq

/-- Whether a text starts with a number sign. -/
def startsComment (text : String) : Bool := text.toList.head? = some '#'

/-- What a list of tokens is as the content of a line. -/
def Content.ofTokens : List String → Content
  | [] => .blank
  | first :: rest => .tokens first rest

/-- What a line holds. A comment is not taken apart, so it is never rejected. -/
def Content.ofLine (line : String) : Except LineFault Content :=
  let text := Text.trim line
  if startsComment text then .ok (.comment text)
  else (Content.ofTokens <$> Line.tokenize line).mapError .flaw

/-! ## Reading -/

/-- A configuration file in memory. -/
class Document (α : Type) where
  kind : DocumentKind
  /-- The document without content. -/
  empty : α
  /-- Takes a comment. -/
  addComment : α → String → α
  /-- Takes the tokens of a line or rejects them. -/
  addTokens : α → String → List String → Except LineFault α
  /-- The lines of the document as it is written. -/
  render : α → List String

variable {α : Type} [Document α]

namespace Document

/-- Takes the content of a line. -/
def addContent (d : α) : Content → Except LineFault α
  | .blank => .ok d
  | .comment text => .ok (addComment d text)
  | .tokens first rest => addTokens d first rest

/-- Takes a line or rejects it. -/
def addLine (d : α) (line : String) : Except LineFault α :=
  Content.ofLine line >>= addContent d

end Document

/-- A document as far as it was read, and the line that ended the reading too early, if any. -/
structure Reading (α : Type) where
  document : α
  error : Option SyntaxError

namespace Reading

/-- No line was rejected. -/
def isComplete {α : Type} (r : Reading α) : Bool := r.error.isNone

/-- Reads on into a document, where the next line has the given number. -/
def extend (d : α) (number : Nat) : List String → Reading α
  | [] => ⟨d, none⟩
  | line :: lines =>
    match Document.addLine d line with
    | .ok d' => extend d' (number + 1) lines
    | .error fault => ⟨d, some ⟨number, fault⟩⟩

/-- Reads a document from its lines, which are counted from 1. -/
def ofLines (α : Type) [Document α] (lines : List String) : Reading α :=
  extend Document.empty 1 lines

/-- Reads a document from a text that is cut after each line feed. -/
def ofText (α : Type) [Document α] (text : String) : Reading α :=
  ofLines α (Text.lines text)

end Reading

/-! ## Writing -/

/-- What was written of a document, and whether that is all of it. -/
structure Written where
  text : String
  isComplete : Bool
  deriving DecidableEq

/-- Writes a document line by line, each with its line feed. A `capacity` is the number of lines
that find room. -/
def Document.write (d : α) (capacity : Option Nat := none) : Written :=
  let lines := Document.render d
  match capacity with
  | none => ⟨Text.unlines lines, true⟩
  | some n => ⟨Text.unlines (lines.take n), lines.length ≤ n⟩

/-- The text of a document. -/
def Document.text (d : α) : String := Text.unlines (Document.render d)

end UpsSetup
