import UpsSetup.Text.Literal

/-!
# Arguments of a command

The words of a command line, grouped without knowing which options exist.

* `-x` starts the option `x` of one dash, `--name` the option `name` of two dashes.
* `--` alone ends the option before it.
* Every other word is a literal: the empty word, a word that does not start with a dash, a single
  dash, and a word of three or more dashes.

The literals before the first option or separator are `leading`; each option or separator starts a
segment that holds the literals up to the next one. An option may occur any number of times, and its
occurrences are counted from 0. `ofWords` groups from the right, so that each word is put in front of
what follows it.
-/

namespace UpsSetup

/-! ## Words -/

/-- How many dashes an option starts with. -/
inductive Dashes where
  | one
  | two
  deriving DecidableEq

/-- The dashes themselves. -/
def Dashes.text : Dashes → String
  | .one => "-"
  | .two => "--"

/-- What a word of the command line is. -/
inductive Word where
  | literal (text : String)
  | option (dashes : Dashes) (name : String)
  | separator
  deriving DecidableEq

/-- What the given characters are as a word. -/
def Word.ofChars : List Char → Word
  | '-' :: '-' :: '-' :: cs => .literal (String.ofList ('-' :: '-' :: '-' :: cs))
  | ['-', '-'] => .separator
  | '-' :: '-' :: cs => .option .two (String.ofList cs)
  | ['-'] => .literal "-"
  | '-' :: cs => .option .one (String.ofList cs)
  | cs => .literal (String.ofList cs)

/-- What a text is as a word. -/
def Word.ofText (text : String) : Word := Word.ofChars text.toList

/-! ## Segments -/

/-- An option, or a separator if there is none, with the literals that follow it. -/
structure Segment where
  option : Option (Dashes × String)
  arguments : List String
  deriving DecidableEq

/-- One of the occurrences of an option: its number among them and its arguments. -/
structure Occurrence where
  name : String
  ordinal : Nat
  arguments : List String
  deriving DecidableEq

/-- A command line, grouped into options and their arguments. -/
structure Arguments where
  /-- The literals before the first option or separator. -/
  leading : List String
  segments : List Segment
  deriving DecidableEq

namespace Arguments

/-- Puts a word in front of grouped arguments. -/
def cons (word : Word) (rest : Arguments) : Arguments :=
  match word with
  | .literal text => ⟨text :: rest.leading, rest.segments⟩
  | .option dashes name => ⟨[], ⟨some (dashes, name), rest.leading⟩ :: rest.segments⟩
  | .separator => ⟨[], ⟨none, rest.leading⟩ :: rest.segments⟩

/-- Groups the words of a command line. -/
def ofWords : List String → Arguments
  | [] => ⟨[], []⟩
  | word :: words => cons (.ofText word) (ofWords words)

/-! ## What was given -/

/-- The arguments of each occurrence of an option, in the order of the command line. -/
def occurrences (a : Arguments) (name : String) (dashes : Dashes := .two) : List (List String) :=
  (a.segments.filter (·.option = some (dashes, name))).map (·.arguments)

/-- The occurrences of an option, numbered in the order of the command line. -/
def numbered (a : Arguments) (name : String) (dashes : Dashes := .two) : List Occurrence :=
  (a.occurrences name dashes).mapIdx fun ordinal arguments => { name, ordinal, arguments }

/-- How often an option occurs. -/
def count (a : Arguments) (name : String) (dashes : Dashes := .two) : Nat :=
  (a.occurrences name dashes).length

/-- Whether an option occurs, with one dash or two. -/
def isGiven (a : Arguments) (name : String) : Bool :=
  0 < a.count name .one + a.count name .two

/-- The arguments of the occurrence with the given number, if there is one. -/
def occurrence? (a : Arguments) (name : String) (ordinal : Int := 0) (dashes : Dashes := .two) :
    Option (List String) :=
  if 0 ≤ ordinal then (a.occurrences name dashes)[ordinal.toNat]? else none

/-- The options of the given dashes, in the order in which they first occur. -/
def names (a : Arguments) (dashes : Dashes) : List String :=
  (a.segments.filterMap fun s =>
    s.option.bind fun (d, name) => if d = dashes then some name else none).eraseDups

/-- The options of one dash, then those of two dashes. -/
def allNames (a : Arguments) : List String := a.names .one ++ a.names .two

/-- The literals that belong to no option: those before the first one and those after a separator. -/
def topLevel (a : Arguments) : List String :=
  a.leading ++ (a.segments.filter (·.option = none)).flatMap (·.arguments)

/-- Whether an occurrence asks for a value or gives one. -/
inductive Access where
  | notSpecified
  | getter
  | setter
  deriving DecidableEq

/-- An occurrence with arguments gives a value, one without asks for it. -/
def access (a : Arguments) (name : String) (ordinal : Int := 0) : Access :=
  match a.occurrence? name ordinal with
  | none => .notSpecified
  | some [] => .getter
  | some (_ :: _) => .setter

/-! ## Diagnostics -/

/-- The lines that list the occurrences of one option. -/
def dumpOption (a : Arguments) (dashes : Dashes) (name : String) : List String :=
  (a.numbered name dashes).map fun o =>
    dashes.text ++ o.name ++ "[" ++ toString o.ordinal ++ "] " ++ " ".intercalate o.arguments

/-- The lines that list everything that was given. -/
def dump (a : Arguments) : List String :=
  ["----- Options dump begin -----"] ++ (a.names .one).flatMap (a.dumpOption .one) ++
    (a.names .two).flatMap (a.dumpOption .two) ++
    ["-- " ++ " ".intercalate a.topLevel, "----- Options dump end -----"]

/-- A short description: the options of either kind and the literals that belong to none. -/
def summary (a : Arguments) : String :=
  "ArgumentStore(single=" ++ Text.literalList (a.names .one) ++ ", double=" ++
    Text.literalList (a.names .two) ++ ", arguments=" ++ Text.literalList a.topLevel ++ ")"

end Arguments

end UpsSetup
