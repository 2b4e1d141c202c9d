import UpsSetup.Line.Token

/-!
# Written form of tokens

How tokens are put on a line so that they are read back: a token stands bare if it is not empty and
holds no character with a meaning of its own, and between double quotes otherwise, with a backslash
before each backslash and each quote. In a list of tokens, a lone equals sign stays bare, since it
separates a key from its value.
-/

namespace UpsSetup.Line

open Text

/-- Whether a character has a meaning of its own on a line, or might be taken for one. -/
def isSpecial (c : Char) : Bool :=
  c = '"' || c = '#' || c = '=' || c = '\\' || c = '[' || c = ']' || isBlank c

/-- The text with a backslash before each backslash and each double quote. -/
def escape (cs : List Char) : List Char :=
  cs.flatMap fun c => if c = '\\' ∨ c = '"' then ['\\', c] else [c]

/-- Whether a text is read back as one token when it stands bare. -/
def standsBare (cs : List Char) : Bool := !cs.isEmpty && !cs.any isSpecial

/-- The written form of a token. -/
def quote (token : String) : String :=
  if standsBare token.toList then token
  else String.ofList ('"' :: (escape token.toList ++ ['"']))

/-- The written form of a token in a list of tokens. -/
def encodeToken (token : String) : String :=
  if token = "=" then token else quote token

/-- The line on which the given tokens stand. -/
def encode (tokens : List String) : String :=
  " ".intercalate (tokens.map encodeToken)

/-! ## Section headers -/

/-- The name in a section header: the only token of its line, between square brackets. -/
def sectionName? : List String → Option String
  | [token] =>
    match token.toList with
    | '[' :: rest => if rest.getLast? = some ']' then some (String.ofList rest.dropLast) else none
    | _ => none
  | _ => none

/-- The header of a section. -/
def sectionHeader (name : String) : String := "[" ++ name ++ "]"

end UpsSetup.Line
