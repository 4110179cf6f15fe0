import ScopedRename.Text.Numeric
import ScopedRename.Token

/-! Names: which characters may spell an identifier, and why a proposed name is refused. -/

namespace ScopedRename

namespace Name

def isStart (c : Char) : Bool := Text.isAlphabetic c || c == '_' || c == '$'

def isPart (c : Char) : Bool := Text.isAlphanumeric c || c == '_' || c == '$'

end Name

inductive NameFault where
  | empty
  | badStart
  | badCharacter (c : Char)
  | reserved
deriving DecidableEq, Repr

namespace NameFault

def reason : NameFault → String
  | .empty => "name cannot be empty"
  | .badStart => "must start with a letter, '_' or '$'"
  | .badCharacter c => "invalid character: '" ++ String.singleton c ++ "'"
  | .reserved => "cannot use a reserved word as an identifier"

end NameFault

namespace Name

/-- The first thing wrong with a name: its start, then its first bad character, then being reserved. -/
def fault? (name : String) : Option NameFault :=
  match name.toList with
  | [] => some .empty
  | first :: rest =>
    if !isStart first then
      some .badStart
    else
      match rest.find? fun c => !isPart c with
      | some c => some (.badCharacter c)
      | none => if isKeyword name then some .reserved else none

def isValid (name : String) : Bool := (fault? name).isNone

end Name

end ScopedRename
