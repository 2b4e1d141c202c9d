import UpsSetup.Document.Assignments
import UpsSetup.Job
import UpsSetup.Text.Decoding

/-!
# Documents in a directory

How documents are read from files and written to them. The bytes of a file have to be valid UTF-8,
and each of the three usual line ends counts; a line that is rejected before a defect of the bytes
is found is noted all the same. A file that does not exist is no failure. Writing replaces the
content of the file, through a link if the path leads to one.
-/

namespace UpsSetup

namespace Job

/-- What is at a path. To ask about a name that is too long is a failure; a path that leads nowhere
for any other reason has nothing at it. -/
def look (p : Path) : Job Place := fun t =>
  match t.locate p with
  | .nowhere .nameTooLong => ⟨t, [], .error (.nameTooLong p.text)⟩
  | place => ⟨t, [], .ok place⟩

/-- The configuration directory that a text stands for, if there is one. -/
def checkDirectory (text : String) : Job Path := do
  let path := Path.ofText text
  match ← look path with
  | .directory _ => return path
  | _ => fail (.storage { step := .directory, path := text })

/-- A document that was read from the lines of a file, unless one was rejected or they are not all.
A line that is rejected is noted. -/
def readDocument {α : Type} [Document α] (path : Path) (content : Text.Decoded) : Job α :=
  let reading := Reading.ofLines α content.lines
  match reading.error with
  | some error => do
    note (.syntaxError (Document.kind α) error)
    fail (.storage { step := .parse, path := path.text })
  | none =>
    if content.isWhole then do
      note (.sourced path.text)
      return reading.document
    else fail (.storage { step := .parse, path := path.text })

/-- Reads the document at a path. Answers `none` if there is nothing. -/
def source (α : Type) [Document α] (path : Path) : Job (Option α) := do
  match ← look path with
  | .file _ content => some <$> readDocument path (Text.decode content)
  | .directory _ => fail (.storage { step := .parse, path := path.text })
  | .vacant _ | .nowhere _ => do
    note (.startingEmpty path.text)
    return none

/-- Gives the file at a path new content. -/
def writeFile (path : Path) (content : ByteArray) : Job Unit := fun t =>
  match t.locate path with
  | .nowhere .nulCharacter => ⟨t, [], .error .nulCharacter⟩
  | _ =>
    match t.write? path content with
    | some t' => ⟨t', [], .ok ()⟩
    | none => ⟨t, [], .error (.storage { step := .write, path := path.text })⟩

/-- Writes a document to the file at a path. What was written so far stays if it is not all. -/
def storeWritten (path : Path) (written : Written) : Job Unit := do
  writeFile path written.text.toUTF8
  if written.isComplete then note (.wrote path.text)
  else fail (.storage { step := .write, path := path.text })

/-- Writes a document to the file at a path. -/
def store {α : Type} [Document α] (path : Path) (d : α) : Job Unit :=
  storeWritten path (Document.write d)

/-- The path of a document in a directory. -/
def documentPath (directory : Path) (kind : DocumentKind) : Path := directory.child kind.fileName

/-- Changes the document in a directory, starting from an empty one if there is none. The event is
noted before the document is changed. -/
def updateDocument {α : Type} [Document α] (directory : Path) (event : Option Event)
    (change : α → α) : Job Unit := do
  let path := documentPath directory (Document.kind α)
  let found ← source α path
  event.forM note
  store path (change (found.getD Document.empty))

/-- Whether the directory sets a mode other than the one for a machine without configuration. A file
that cannot be read is noted and sets none. -/
def isConfigured (directory : Path) : Job Bool := fun t =>
  let reading := (source Assignments (documentPath directory .nut)).run t
  match reading.result with
  | .ok found => ⟨reading.tree, reading.log, .ok (found.any Assignments.isConfigured)⟩
  | .error (.storage error) => ⟨reading.tree, reading.log ++ [.modeUnknown error], .ok false⟩
  | .error failure => ⟨reading.tree, reading.log, .error failure⟩

end Job

end UpsSetup
