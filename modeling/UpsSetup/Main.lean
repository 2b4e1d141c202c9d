import Std.Time.Zoned
import UpsSetup.Command.Run

/-!
# The command

Runs the tool on the real configuration directory: an image of the directory is taken, the run is
carried out on the image, and the files that it wrote are written back in their order. Nothing is
decided here.
-/

namespace UpsSetup.Main

/-- A number with at least two digits. -/
def twoDigits (n : Int) : String :=
  if n < 10 then "0" ++ toString n else toString n

/-- The date and the time of day. -/
def timestamp : IO String := do
  let t ← Std.Time.PlainDateTime.now
  return toString t.year ++ "-" ++ twoDigits t.month.val ++ "-" ++ twoDigits t.day.val ++ " " ++
    twoDigits t.hour.val ++ ":" ++ twoDigits t.minute.val ++ ":" ++ twoDigits t.second.val

/-- The documents in the order in which they are written. -/
def documents : List DocumentKind := [.upsmon, .upsd, .ups, .nut]

/-- Whether there is a directory at a path. Only a directory has an entry for itself. -/
def isDirectory (path : Path) : IO Bool := do
  match ← (IO.FS.Handle.mk (path.text ++ "/.") .read).toBaseIO with
  | .ok _ => return true
  | .error _ => return false

/-- Takes over the file at a path. What cannot be read as a file takes its place as a directory,
which can be neither read nor written. -/
def loadFile (t : Tree) (path : Path) : IO Tree := do
  match ← (IO.FS.readBinFile path.text).toBaseIO with
  | .ok content => return (t.write? path content).getD t
  | .error (.noFileOrDirectory _ _ _) => return t
  | .error _ => return t.makeDirectory path

/-- The image of a configuration directory. -/
def load (directory : Path) : IO Tree := do
  let nothing : Tree := ⟨∅, []⟩
  if ← isDirectory directory then
    documents.foldlM (fun t kind => loadFile t (Job.documentPath directory kind))
      (nothing.makeParents (directory.child "."))
  else return nothing

/-- Writes back the files that a run wrote, up to the first that cannot be written. -/
def save (directory : Path) (e : Execution) : IO (Option Failure) := do
  for kind in documents do
    let path := Job.documentPath directory kind
    if e.log.contains (.wrote path.text) then
      if let .file _ content := e.tree.locate path then
        if let .error _ ← (IO.FS.writeBinFile path.text content).toBaseIO then
          return some (.storage { step := .write, path := path.text })
  return none

/-- Prints lines on a stream. -/
def print (stream : IO.FS.Stream) (lines : List String) : IO Unit :=
  lines.forM stream.putStrLn

/-- Runs the tool and answers its exit code. -/
def run (words : List String) : IO UInt32 := do
  let environment : Environment :=
    { directory := ← IO.getEnv directoryVariable, verbosity := ← IO.getEnv verbosityVariable }
  let invocation : Invocation := { program := toString (← IO.appPath), words, environment }
  let directory := Path.ofText ((Request.ofWords words).directory environment)
  let errors ← IO.getStderr
  let (warning, threshold) := invocation.verbosity
  print errors warning.toList
  let execution := invocation.execute (← load directory)
  let unsaved ← save directory execution
  let time ← timestamp
  print errors ((execution.shownEvents threshold).map fun event =>
    Logger.line time event.channel.name event.level event.message)
  match unsaved with
  | some failure =>
    print errors ["Error: " ++ failure.message]
    return failureCode.toUInt32
  | none =>
    print errors execution.answer.errors
    print (← IO.getStdout) execution.answer.output
    return execution.answer.code.toUInt32

end UpsSetup.Main

/-- The entry point. -/
def main (words : List String) : IO UInt32 := UpsSetup.Main.run words
