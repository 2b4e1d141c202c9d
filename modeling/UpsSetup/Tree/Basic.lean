import UpsSetup.OrderedMap
import UpsSetup.Tree.Path

/-!
# Directory trees

Files, directories and symbolic links by their location, which is the list of names from the root.
The root itself is always a directory. A path is followed name by name from the root or from the
working directory (`Tree.locate`): links are replaced by what they point to, `..` leads to the
directory above, and only directories are entered. A path may lead to an entry, to a vacant place in
a directory, or nowhere.

Following is a recursion on the names for a fixed number of links that may still be followed
(`walk`), inside a recursion on that number (`follow`).
-/

namespace UpsSetup

/-- Contents are compared byte by byte. -/
instance (priority := high) decidableEqContent : DecidableEq ByteArray :=
  ByteArray.instDecidableEq

/-- What stands at a location. -/
inductive Entry where
  | file (content : ByteArray)
  | directory
  /-- A symbolic link to the place that a text stands for. -/
  | link (target : String)
  deriving DecidableEq

/-- A location: the names from the root. -/
abbrev Location := List String

/-- Files, directories and links, and the directory in which relative paths start. -/
structure Tree where
  entries : OrderedMap Location Entry
  workingDirectory : Location
  deriving DecidableEq

/-- Why a path leads nowhere. -/
inductive Obstacle where
  /-- There is nothing under a name before the last one. -/
  | missing
  /-- A file stands where a directory has to be entered. -/
  | notDirectory
  /-- More links than can be followed. -/
  | tooManyLinks
  /-- A name, or the whole path, is longer than any that can exist. -/
  | nameTooLong
  /-- The path holds the character U+0000, which no name can hold. -/
  | nulCharacter
  deriving DecidableEq

/-- Where a path leads. -/
inductive Place where
  | file (location : Location) (content : ByteArray)
  | directory (location : Location)
  /-- The directory has no entry of that name, so one can be made. -/
  | vacant (location : Location)
  | nowhere (obstacle : Obstacle)
  deriving DecidableEq

/-- The greatest number of bytes in a name. -/
def maxNameBytes : Nat := 255

/-- The greatest number of bytes in a path. -/
def maxPathBytes : Nat := 4095

/-- How many links are followed on a path. -/
def maxLinks : Nat := 40

namespace Tree

/-- The entry at a location. -/
def get? (t : Tree) (l : Location) : Option Entry := t.entries.get? l

/-- Puts an entry at a location. -/
def insert (t : Tree) (l : Location) (e : Entry) : Tree :=
  { t with entries := t.entries.insert l e }

/-- An entry that is put into a tree changes its own location only. -/
theorem get?_insert (t : Tree) (l l' : Location) (e : Entry) :
    (t.insert l e).get? l' = if l' = l then some e else t.get? l' :=
  OrderedMap.get?_insert ..

@[simp] theorem workingDirectory_insert (t : Tree) (l : Location) (e : Entry) :
    (t.insert l e).workingDirectory = t.workingDirectory := rfl

/-! ## Following paths -/

/-- Follows names from a directory. What to do at a link is given by `onLink`, which is handed the
directory in which the target starts and all names to follow from there. An empty name and a dot
stay where they are, so that a slash at the end asks for a directory. -/
def walk (t : Tree) (onLink : Location → List String → Place) (here : Location) :
    List String → Place
  | [] => .directory here
  | name :: rest =>
    if !Path.isName name then walk t onLink here rest
    else if name = ".." then walk t onLink here.dropLast rest
    else if maxNameBytes < name.utf8ByteSize then .nowhere .nameTooLong
    else
      let next := here ++ [name]
      match t.get? next with
      | none => if rest = [] then .vacant next else .nowhere .missing
      | some .directory => walk t onLink next rest
      | some (.file content) => if rest = [] then .file next content else .nowhere .notDirectory
      | some (.link target) =>
        onLink (if target.toList.head? = some '/' then [] else here) (Path.pieces target ++ rest)

/-- Follows names from a directory, and at most `links` links on the way. -/
def follow (t : Tree) : (links : Nat) → Location → List String → Place
  | 0 => walk t fun _ _ => .nowhere .tooManyLinks
  | links + 1 => walk t (follow t links)

/-- Where a path leads. -/
def locate (t : Tree) (p : Path) : Place :=
  if '\x00' ∈ p.text.toList then .nowhere .nulCharacter
  else if maxPathBytes < p.text.utf8ByteSize then .nowhere .nameTooLong
  else follow t maxLinks (if p.root = .relative then t.workingDirectory else []) p.names

/-! ## Making entries -/

/-- The location of a path, whether there is an entry or not. -/
def Place.location? : Place → Option Location
  | .file l _ | .directory l | .vacant l => some l
  | .nowhere _ => none

/-- Gives the file at a path new content, or makes it. `none` if that is not possible. -/
def write? (t : Tree) (p : Path) (content : ByteArray) : Option Tree :=
  match t.locate p with
  | .file l _ | .vacant l => some (t.insert l (.file content))
  | .directory _ | .nowhere _ => none

/-- Makes a directory unless there is something at the path. -/
def makeDirectory (t : Tree) (p : Path) : Tree :=
  match t.locate p with
  | .vacant l => t.insert l .directory
  | _ => t

/-- Makes the directories that lead to a path. -/
def makeParents (t : Tree) (p : Path) : Tree :=
  (List.range p.names.length).foldl (fun t n => t.makeDirectory { p with names := p.names.take n }) t

/-- Makes a link at a path whose parent exists. -/
def makeLink (t : Tree) (p : Path) (target : String) : Tree :=
  match t.locate p with
  | .vacant l => t.insert l (.link target)
  | _ => t

end Tree

end UpsSetup
