import UpsSetup.Document.Assignments
import UpsSetup.Document.Devices
import UpsSetup.Document.Directives
import UpsSetup.Log.Event

/-!
# Reading into a document

A document that holds something already is cleared before it is read anew. Each kind of document
clears its own parts. A line that is rejected is noted, and the document keeps what the lines before
it gave.
-/

namespace UpsSetup

/-! ## Documents of a kind -/

/-- The documents of a kind. -/
def DocumentKind.File : DocumentKind → Type
  | nut => Assignments
  | upsmon => MonitorFile
  | upsd => ListenFile
  | ups => DeviceFile

instance : (kind : DocumentKind) → Document kind.File
  | .nut => inferInstanceAs (Document Assignments)
  | .upsmon => inferInstanceAs (Document MonitorFile)
  | .upsd => inferInstanceAs (Document ListenFile)
  | .ups => inferInstanceAs (Document DeviceFile)

/-! ## Clearing -/

/-- A document whose parts can be emptied. -/
class Clearable (α : Type) [Document α] where
  clear : α → α
  /-- No part is left over. -/
  clear_eq_empty : ∀ d, clear d = Document.empty

instance : Clearable Assignments where
  clear f := { f with values := ∅, layout := [] }
  clear_eq_empty _ := rfl

instance {ρ : Type} [Managed ρ] : Clearable (DirectiveFile ρ) where
  clear f := { f with unmanaged := [], records := [] }
  clear_eq_empty _ := rfl

instance : Clearable DeviceFile where
  clear f := { f with
    sections := OrderedMap.ofList [(globalSection, ∅)]
    comments := ∅
    trailing := []
    current := globalSection }
  clear_eq_empty _ := rfl

instance : (kind : DocumentKind) → Clearable kind.File
  | .nut => inferInstanceAs (Clearable Assignments)
  | .upsmon => inferInstanceAs (Clearable MonitorFile)
  | .upsd => inferInstanceAs (Clearable ListenFile)
  | .ups => inferInstanceAs (Clearable DeviceFile)

/-! ## Reading -/

/-- What is left when lines were read into a document. -/
structure Parsed (α : Type) where
  document : α
  /-- No line was rejected. -/
  accepted : Bool
  log : List Event

namespace Document

variable {α : Type} [Document α]

/-- The outcome of a reading, where a line that was rejected is noted. -/
def noteReading (reading : Reading α) : Parsed α where
  document := reading.document
  accepted := reading.isComplete
  log := reading.error.toList.map (.syntaxError (kind α))

/-- Reads lines into a document in place of what it holds. -/
def parse [Clearable α] (earlier : α) (lines : List String) : Parsed α :=
  noteReading (Reading.extend (Clearable.clear earlier) 1 lines)

end Document

end UpsSetup
