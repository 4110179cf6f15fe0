import ScopedRename.Text.Bytes

/-!
Paths as the system keeps them: bytes, cut into names at their slashes. A name need not be a text, so what a path is
shown as need not lead back to it.
-/

namespace ScopedRename

abbrev FilePath := List UInt8

namespace FilePath

def slash : UInt8 := 0x2F

def dot : FilePath := [0x2E]

def dots : FilePath := [0x2E, 0x2E]

def ofText (text : String) : FilePath := Text.encode text

def display (path : FilePath) : String := Text.decode path

def parts (path : FilePath) : List FilePath := (path.splitOn slash).filter (!·.isEmpty)

def isAbsolute (path : FilePath) : Bool := path.head? == some slash

def rootName : FilePath := [slash]

def names (path : FilePath) : List FilePath := if isAbsolute path then rootName :: parts path else parts path

def ofNames (names : List FilePath) : FilePath := [slash].intercalate names

/-- What a path is made of: its names, without the dots behind the first that lead nowhere. -/
def components (path : FilePath) : List FilePath :=
  match names path with
  | [] => []
  | first :: rest => first :: rest.filter (· != dot)

def below? (directory path : FilePath) : Option FilePath :=
  if (components directory).isPrefixOf (components path) then
    some (ofNames ((components path).drop (components directory).length))
  else
    none

def rank (component : FilePath) : Nat :=
  if component == rootName then 0
  else if component == dot then 1
  else if component == dots then 2
  else 3

def componentsLe : List FilePath → List FilePath → Bool
  | [], _ => true
  | _ :: _, [] => false
  | left :: leftRest, right :: rightRest =>
    if left == right then componentsLe leftRest rightRest
    else if rank left == rank right then left < right
    else rank left < rank right

def le (left right : FilePath) : Bool := componentsLe (components left) (components right)

def endsWithSlash (path : FilePath) : Bool := path.getLast? == some slash

/-- A path seen from a directory. One that starts at the root leads away from it. -/
def join (directory below : FilePath) : FilePath :=
  if isAbsolute below then below
  else if directory.isEmpty || endsWithSlash directory then directory ++ below
  else directory ++ slash :: below

def isName (name : FilePath) : Bool := !name.isEmpty && !name.contains slash && name != dot && name != dots

end FilePath

end ScopedRename
