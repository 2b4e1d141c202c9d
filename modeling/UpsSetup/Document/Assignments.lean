import UpsSetup.Document.Basic
import UpsSetup.Mode
import UpsSetup.OrderedMap
import UpsSetup.Text.Literal

/-!
# Files of assignments

A file of lines `KEY=value` (`nut.conf`), which holds the mode of operation under the key `MODE`.
The values and the layout of the lines are kept apart: the layout lists comments and keys in the
order in which they were read, and writing puts each value at the first place of its key. A key that
was never read is written at the end, and one that lost its value not at all.
-/

namespace UpsSetup

/-- What stands on a line. -/
inductive AssignmentLine where
  | comment (text : String)
  | key (key : String)
  deriving DecidableEq

/-- A file of assignments. -/
structure Assignments where
  values : OrderedMap String String
  /-- The comments and keys in the order in which they were read. -/
  layout : List AssignmentLine
  deriving DecidableEq

/-- A word that names no mode. -/
structure UnknownMode where
  word : String
  deriving DecidableEq

/-- The wording for it. -/
def UnknownMode.message (u : UnknownMode) : String :=
  Text.literal u.word ++ " is not a valid NutMode"

namespace Assignments

/-- Key and value of an assignment that starts with the token `key`. Without a value it is empty. -/
def assignment? (key : String) : List String → Option (String × String)
  | ["="] => some (key, "")
  | ["=", value] => some (key, value)
  | _ => none

/-- Takes the tokens of a line. -/
def addTokens (f : Assignments) (first : String) (rest : List String) :
    Except LineFault Assignments :=
  match assignment? first rest with
  | some (key, value) => .ok ⟨f.values.insert key value, f.layout ++ [.key key]⟩
  | none => .error .expectedAssignment

/-! ## Writing -/

/-- The lines of the layout that are written: all comments, and each key that has a value at its
first place, unless it is among those `written` already. -/
def placed (values : OrderedMap String String) (written : List String) :
    List AssignmentLine → List AssignmentLine
  | [] => []
  | .comment text :: rest => .comment text :: placed values written rest
  | .key k :: rest =>
    if values.contains k ∧ k ∉ written then .key k :: placed values (k :: written) rest
    else placed values written rest

/-- The line for a key and its value. -/
def assign (key value : String) : String := key ++ "=" ++ Line.quote value

/-- A line of the layout as it is written. -/
def renderLine (values : OrderedMap String String) : AssignmentLine → String
  | .comment text => text
  | .key k => assign k (values.getD k "")

/-- The keys and values that the layout does not place. -/
def unplaced (f : Assignments) : List (String × String) :=
  f.values.entries.filter fun (k, _) => .key k ∉ f.layout

instance : Document Assignments where
  kind := .nut
  empty := ⟨∅, []⟩
  addComment f text := { f with layout := f.layout ++ [.comment text] }
  addTokens := addTokens
  render f :=
    (placed f.values [] f.layout).map (renderLine f.values) ++
      f.unplaced.map fun (k, v) => assign k v

/-! ## Editing -/

/-- Gives a key a value. -/
def set (f : Assignments) (key value : String) : Assignments :=
  { f with values := f.values.insert key value }

/-- Takes the value of a key away. -/
def unset (f : Assignments) (key : String) : Assignments :=
  { f with values := f.values.erase key }

/-- The key that holds the mode. -/
def modeKey : String := "MODE"

/-- The mode, if there is one. Surrounding white space does not matter, nor does the case of ASCII
letters; no other character has the lower case of a letter in the word for a mode. -/
def mode? (f : Assignments) : Option Mode :=
  Mode.ofName? (Text.trim (f.values.getD modeKey "")).toLower

/-- Sets the mode. -/
def setMode (f : Assignments) (mode : Mode) : Assignments := f.set modeKey mode.name

/-- Sets the mode that a word names, in exactly this spelling. -/
def setModeNamed (f : Assignments) (word : String) : Except UnknownMode Assignments :=
  match Mode.ofName? word with
  | some mode => .ok (f.setMode mode)
  | none => .error ⟨word⟩

/-- The file sets a mode, and it is not the one for a machine without configuration. -/
def isConfigured (f : Assignments) : Bool :=
  match f.mode? with
  | none | some .none => false
  | some _ => true

end Assignments

end UpsSetup
