import UpsSetup.Document.Basic
import UpsSetup.Record.Listen
import UpsSetup.Record.Monitor
import UpsSetup.Text.Uppercase

/-!
# Files of directives

A file of lines that each start with a keyword. One keyword is managed: its lines are records of one
type, and they are written after everything else. All other directives and the comments are kept in
order and as they are. The keyword is recognised in any spelling whose upper case it is.

The monitored devices (`upsmon.conf`) and the listen addresses (`upsd.conf`) are such files.
-/

namespace UpsSetup

/-- Records that stand one on a line behind a keyword. -/
class Managed (ρ : Type) where
  /-- The file in which the records stand. -/
  kind : DocumentKind
  /-- The keyword in upper case. -/
  keyword : String
  /-- Reads the arguments of a line. -/
  ofArguments : List String → Except DirectiveFault ρ
  /-- The arguments of the line for a record. -/
  arguments : ρ → List String

instance : Managed Monitor where
  kind := .upsmon
  keyword := "MONITOR"
  ofArguments := Monitor.ofArguments
  arguments := Monitor.arguments

instance : Managed Listen where
  kind := .upsd
  keyword := "LISTEN"
  ofArguments := Listen.ofArguments
  arguments := Listen.arguments

/-- A line that is kept as it is. -/
inductive Unmanaged where
  | comment (text : String)
  | directive (first : String) (rest : List String)
  deriving DecidableEq

/-- The line as it is written. -/
def Unmanaged.render : Unmanaged → String
  | comment text => text
  | directive first rest => Line.encode (first :: rest)

/-- A file of directives with records of type `ρ`. -/
structure DirectiveFile (ρ : Type) where
  unmanaged : List Unmanaged
  records : List ρ
  deriving DecidableEq

/-- New records after the existing ones, or instead of them. -/
def mergeRecords {ρ : Type} (existing new : List ρ) (keepsExisting : Bool) : List ρ :=
  if keepsExisting then existing ++ new else new

namespace DirectiveFile

variable {ρ : Type} [Managed ρ]

/-- The line for a record. -/
def recordLine (r : ρ) : String := Line.encode (Managed.keyword ρ :: Managed.arguments r)

/-- Takes the tokens of a line. -/
def addTokens (f : DirectiveFile ρ) (first : String) (rest : List String) :
    Except LineFault (DirectiveFile ρ) :=
  if Text.upper first = Managed.keyword ρ then
    match Managed.ofArguments rest with
    | .ok r => .ok { f with records := f.records ++ [r] }
    | .error fault => .error (.directive fault)
  else .ok { f with unmanaged := f.unmanaged ++ [.directive first rest] }

instance : Document (DirectiveFile ρ) where
  kind := Managed.kind ρ
  empty := ⟨[], []⟩
  addComment f text := { f with unmanaged := f.unmanaged ++ [.comment text] }
  addTokens := addTokens
  render f := f.unmanaged.map Unmanaged.render ++ f.records.map recordLine

/-- Replaces the records, or adds to them. -/
def setRecords {ρ : Type} (f : DirectiveFile ρ) (new : List ρ) (keepsExisting : Bool) :
    DirectiveFile ρ :=
  { f with records := mergeRecords f.records new keepsExisting }

end DirectiveFile

/-- The monitored devices. -/
abbrev MonitorFile := DirectiveFile Monitor

/-- The listen addresses. -/
abbrev ListenFile := DirectiveFile Listen

end UpsSetup
