/-!
# Paths

A path is a list of names below a root or below the working directory. Reading a path drops what
says nothing: repeated and final slashes and the name `.`; the name `..` is kept, since what it means
depends on links. Exactly two slashes at the start are kept apart from one, and three or more are
the same as one.
-/

namespace UpsSetup

/-- Where a path starts. -/
inductive PathRoot where
  /-- At the working directory. -/
  | relative
  /-- At the root. -/
  | absolute
  /-- At the root, written with two slashes. -/
  | doubled
  deriving DecidableEq

/-- The root as it is written. -/
def PathRoot.text : PathRoot → String
  | relative => ""
  | absolute => "/"
  | doubled => "//"

/-- A path. -/
structure Path where
  root : PathRoot
  names : List String
  deriving DecidableEq

namespace Path

/-- The pieces of a text between slashes. -/
def pieces (text : String) : List String :=
  (text.toList.splitOn '/').map String.ofList

/-- Whether a piece of a path is a name. -/
def isName (piece : String) : Bool := piece ≠ "" && piece ≠ "."

/-- The root of the path that a text stands for. -/
def rootOf : List Char → PathRoot
  | '/' :: '/' :: '/' :: _ => .absolute
  | '/' :: '/' :: _ => .doubled
  | '/' :: _ => .absolute
  | _ => .relative

/-- The path that a text stands for. -/
def ofText (text : String) : Path := ⟨rootOf text.toList, (pieces text).filter isName⟩

/-- The path as it is written. The working directory is a dot. -/
def text (p : Path) : String :=
  if p.root = .relative ∧ p.names = [] then "." else p.root.text ++ "/".intercalate p.names

/-- The path of an entry of a directory. -/
def child (p : Path) (name : String) : Path := { p with names := p.names ++ [name] }

end Path

end UpsSetup
