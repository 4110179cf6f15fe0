import ScopedRename.Command.Line
import ScopedRename.Files.Tree
import ScopedRename.Session

/-!
The program. It loads the files a command line names, lets `CommandLine.answer` decide, prints the answer and writes
the files that changed.
-/

namespace ScopedRename.Program

structure Loaded where
  tree : FileTree := {}
  origins : List (List FilePath × String) := []

/-- The paths that a path goes through, outermost first. -/
def passedBy (path : String) : List String :=
  let parts := path.splitOn "/"
  ((List.range parts.length).map fun count => "/".intercalate (parts.take count)).filter (!·.isEmpty)

def isDirectory (path : String) : IO Bool := do
  let base ← IO.currentDir
  (base / path).isDir

def entries (path : String) : IO (List String) := do
  let base ← IO.currentDir
  return (← (base / path).readDir).toList.map (·.fileName)

def loadFile (loaded : Loaded) (path : String) : IO Loaded := do
  let bytes ← IO.FS.readBinFile path
  let place := FilePath.place (.ofText path)
  return {
    tree := loaded.tree.addFile place (.ofBytes bytes.toList)
    origins := (place, path) :: loaded.origins }

def tryFile (loaded : Loaded) (path : String) : IO Loaded := do
  try loadFile loaded path catch _ => return loaded

def addDirectory (loaded : Loaded) (path : String) : Loaded :=
  { loaded with tree := loaded.tree.addDirectory (FilePath.place (.ofText path)) }

partial def load (loaded : Loaded) (path : String) : IO Loaded := do
  if ← isDirectory path then
    (← entries path).foldlM (fun loaded name => load loaded (path ++ "/" ++ name)) (addDirectory loaded path)
  else
    tryFile loaded path

def loadPath (path : String) : IO Loaded := do
  let passed ← (passedBy path).foldlM (fun loaded passed => do
    if ← isDirectory passed then return addDirectory loaded passed else tryFile loaded passed) ({} : Loaded)
  load passed path

def pathOf? : CommandLine.Invocation → Option String
  | .version => none
  | .rename arguments .. => arguments.resolve.toOption.map (·.1)
  | .analyze file => some file
  | .batch root .. => some root

/-- Replaces a file in one move, so that nobody sees half of it. -/
def replaceFile (path text : String) : IO Unit := do
  let draft := path ++ ".draft"
  IO.FS.writeFile draft text
  IO.FS.rename draft path

def writeChanges (loaded : Loaded) (after : FileTree) : IO Unit :=
  (after.changes loaded.tree).forM fun (place, text) =>
    replaceFile (((loaded.origins.find? (·.1 == place)).map (·.2)).getD (FilePath.ofNames place).display) text

end ScopedRename.Program

open ScopedRename in
def main (arguments : List String) : IO UInt32 := do
  let path := (CommandLine.read {} arguments).bind Program.pathOf?
  let loaded ← match path with
    | some path => Program.loadPath path
    | none => pure {}
  let answer := CommandLine.answer FileTree.host loaded.tree arguments
  try
    Program.writeChanges loaded answer.tree
    IO.print answer.output
    return UInt32.ofNat answer.exitCode
  catch error =>
    let failure := Failure.notApplied (toString error) path
    IO.print failure.response.emit
    return UInt32.ofNat failure.exitCode
