import ScopedRename.Files.Path

/-!
What the program takes from the system it runs on and from libraries: reading, walking and replacing files, and patterns
that choose among them.
-/

namespace ScopedRename

inductive FileContent where
  | text (characters : String)
  | binary (bytes : List UInt8)
deriving DecidableEq, Repr

namespace FileContent

def ofBytes (bytes : List UInt8) : FileContent :=
  match String.fromUTF8? ⟨bytes.toArray⟩ with
  | some characters => .text characters
  | none => .binary bytes

end FileContent

structure Trouble where
  /-- Nothing stands at the path. -/
  isMissing : Bool
  message : String
deriving DecidableEq, Repr

structure WalkEntry where
  path : FilePath
  /-- A regular file stands there. -/
  isFile : Bool
deriving DecidableEq, Repr

structure Host (Tree Pattern : Type) where
  isDirectory : Tree → FilePath → Bool
  /-- Reads the text of a file. -/
  read : Tree → FilePath → Except Trouble String
  /-- Moves a new file with this text to a path, in place of what stands there. -/
  replace : Tree → FilePath → String → Except Trouble Tree
  /-- Everything below a directory, in some order; what cannot be entered is none. -/
  walk : Tree → FilePath → List (Option WalkEntry)
  readPattern : String → Except String Pattern
  /-- The test of paths that patterns make together. -/
  matcher : List Pattern → Except String (FilePath → Bool)

end ScopedRename
