import UpsSetup.Document.Basic
import UpsSetup.Document.Sections

/-!
# Files of devices

A file of entries in sections (`ups.conf`): `key = value`, or a bare key as a flag. A comment belongs
to the header or entry that follows it and is written in front of it. Comments after the last entry
stand at the end of the file.
-/

namespace UpsSetup

/-- A file of devices. -/
structure DeviceFile where
  sections : Sections
  /-- The comments in front of a header (no key) or an entry of a section. -/
  comments : OrderedMap (String × Option String) (List String)
  /-- The comments that no header or entry has followed yet. -/
  trailing : List String
  /-- The section to which the next entry belongs. -/
  current : String
  deriving DecidableEq

namespace DeviceFile

/-! ## Reading -/

/-- The file with an empty global section. -/
def empty : DeviceFile where
  sections := OrderedMap.ofList [(globalSection, ∅)]
  comments := ∅
  trailing := []
  current := globalSection

/-- Lets the comments that were read last belong to a header or entry. -/
def attachComments (f : DeviceFile) (name : String) (key : Option String) : DeviceFile :=
  if f.trailing = [] then f
  else { f with
    comments := f.comments.insert (name, key) (f.comments.getD (name, key) [] ++ f.trailing)
    trailing := [] }

/-- Enters the section of a header, which is added if it is new. -/
def enter (f : DeviceFile) (name : String) : DeviceFile :=
  attachComments { f with
    sections := if f.sections.contains name then f.sections else f.sections.insert name ∅
    current := name } name none

/-- Takes an entry of the current section. -/
def addEntry (f : DeviceFile) (key : String) (value : Option String) : DeviceFile :=
  attachComments { f with sections := f.sections.setValue f.current key value } f.current (some key)

/-- Key and value of an entry that starts with the token `key`. A flag has no value, and a flag
cannot be an equals sign. -/
def readEntry (key : String) : List String → Option (String × Option String)
  | [] => if key = "=" then none else some (key, none)
  | ["="] => some (key, some "")
  | ["=", value] => some (key, some value)
  | _ => none

/-- Takes the tokens of a line. -/
def addTokens (f : DeviceFile) (first : String) (rest : List String) :
    Except LineFault DeviceFile :=
  match Line.sectionName? (first :: rest) with
  | some name => if name = "" then .error .emptySectionName else .ok (f.enter name)
  | none =>
    match readEntry first rest with
    | some (key, value) => .ok (f.addEntry key value)
    | none => .error .expectedEntry

/-! ## Writing -/

/-- The line for an entry. -/
def entryLine (key : String) : Option String → String
  | none => Line.quote key
  | some value => Line.quote key ++ " = " ++ Line.quote value

/-- The comments in front of a header or an entry. -/
def commentsOf (f : DeviceFile) (name : String) (key : Option String) : List String :=
  f.comments.getD (name, key) []

/-- The lines for an entry and its comments. -/
def entryLines (f : DeviceFile) (name : String) (entry : String × Option String) : List String :=
  let indent := if name = globalSection then "" else "\t"
  (f.commentsOf name (some entry.1) ++ [entryLine entry.1 entry.2]).map (indent ++ ·)

/-- The lines for a section. The global section has no header. -/
def sectionLines (f : DeviceFile) (name : String) (entries : Section) : List String :=
  (if name = globalSection then [] else f.commentsOf name none ++ [Line.sectionHeader name]) ++
    entries.entries.flatMap (f.entryLines name)

/-- The lines for a list of sections, where a header is preceded by a blank line unless nothing was
written before it; `started` tells whether something was. -/
def renderSections (f : DeviceFile) (started : Bool) : List (String × Section) → List String
  | [] => []
  | (name, entries) :: rest =>
    let lines := f.sectionLines name entries
    (if name ≠ globalSection ∧ started then [""] else []) ++ lines ++
      renderSections f (started || !lines.isEmpty) rest

instance : Document DeviceFile where
  kind := .ups
  empty := empty
  addComment f text := { f with trailing := f.trailing ++ [text] }
  addTokens := addTokens
  render f := f.renderSections false f.sections.entries ++ f.trailing

/-! ## Editing -/

/-- The identifiers of the devices. -/
def devices (f : DeviceFile) : List String := f.sections.keys.filter (· ≠ globalSection)

/-- Replaces the devices, or adds to them. -/
def setDevices (f : DeviceFile) (new : List Device) (keepsExisting : Bool) : DeviceFile :=
  { f with sections := f.sections.merge new keepsExisting }

/-- Gives a key of a device a value, or makes it a flag. -/
def setValue (f : DeviceFile) (device key : String) (value : Option String) : DeviceFile :=
  { f with sections := f.sections.setValue device key value }

/-- Takes a section away. Comments in it are kept for a section of the same name. -/
def eraseSection (f : DeviceFile) (name : String) : DeviceFile :=
  { f with sections := f.sections.erase name }

end DeviceFile

end UpsSetup
