import ScopedRename.Files.Glob.Selection
import ScopedRename.Files.Host

/-!
A tree of files and directories seen from a working directory, as a host. A place in it is the list of names that lead
there. A place that starts with two dots or the root lies outside the working directory.
-/

namespace ScopedRename

inductive FileNode where
  | file (content : FileContent)
  | directory
deriving DecidableEq, Repr

inductive FileTrouble where
  | missing
  | isDirectory
  | notDirectory
  | notText
  /-- The path ends in dots, which name a directory that is in use. -/
  | busy
  | nameTooLong
  /-- A path to read holds a character that no path can hold. -/
  | nullInPath
  /-- A path to write holds a character that no path can hold. -/
  | invalidArgument
deriving DecidableEq, Repr

namespace FileTrouble

def message : FileTrouble → String
  | .missing => "No such file or directory (os error 2)"
  | .isDirectory => "Is a directory (os error 21)"
  | .notDirectory => "Not a directory (os error 20)"
  | .notText => "stream did not contain valid UTF-8"
  | .busy => "Device or resource busy (os error 16)"
  | .nameTooLong => "File name too long (os error 36)"
  | .nullInPath => "file name contained an unexpected NUL byte"
  | .invalidArgument => "Invalid argument (os error 22)"

def report (trouble : FileTrouble) : Trouble := ⟨trouble == .missing, trouble.message⟩

end FileTrouble

namespace FilePath

/-- Where a name leads from a place: one dot stays, two dots go up, above the working directory too. -/
def advance (place : List FilePath) (name : FilePath) : List FilePath :=
  if name == dot then place
  else if name == rootName then [rootName]
  else if name != dots then place ++ [name]
  else if place.all (· == dots) then place ++ [dots]
  else if place == [rootName] then place
  else place.dropLast

def descent (place : List FilePath) : List FilePath :=
  if place.head? == some rootName then place.tail else place.dropWhile (· == dots)

def isNamed (place : List FilePath) : Bool := !(descent place).isEmpty && (descent place).all isName

def place (path : FilePath) : List FilePath := (names path).foldl advance []

def nameLimit : Nat := 255

def pathLimit : Nat := 4095

def fits (path : FilePath) : Bool := path.length ≤ pathLimit

def holdsNull (path : FilePath) : Bool := path.contains 0

end FilePath

/-- The files and directories at their places: each place holds one node, and names lead down to it. -/
structure FileTree where
  nodes : List (List FilePath × FileNode)
  distinct : (nodes.map (·.1)).Nodup
  named : ∀ entry ∈ nodes, FilePath.isNamed entry.1 = true
deriving DecidableEq, Repr

namespace FileTree

instance : EmptyCollection FileTree where
  emptyCollection := ⟨[], List.nodup_nil, fun _ member => absurd member List.not_mem_nil⟩

variable (tree : FileTree)

def node? (place : List FilePath) : Option FileNode :=
  if (FilePath.descent place).isEmpty then some .directory
  else (tree.nodes.find? (·.1 == place)).map (·.2)

def put (place : List FilePath) (node : FileNode) : FileTree :=
  if named : FilePath.isNamed place = true then
    { nodes := (place, node) :: tree.nodes.filter (·.1 != place)
      distinct := by
        rw [List.map_cons, List.nodup_cons]
        refine ⟨?_, tree.distinct.sublist (List.filter_sublist.map _)⟩
        intro member
        obtain ⟨entry, kept, same⟩ := List.mem_map.mp member
        exact bne_iff_ne.mp (List.mem_filter.mp kept).2 same
      named := by
        intro entry member
        rcases List.mem_cons.mp member with rfl | kept
        · exact named
        · exact tree.named entry (List.mem_filter.mp kept).1 }
  else tree

def addDirectory (place : List FilePath) : FileTree :=
  (List.range place.length).foldl (fun tree count =>
    let directory := place.take (count + 1)
    if (tree.node? directory).isNone then tree.put directory .directory else tree) tree

def addFile (place : List FilePath) (content : FileContent) : FileTree :=
  (tree.addDirectory place.dropLast).put place (.file content)

def follow : List FilePath → List FilePath → Except FileTrouble (List FilePath)
  | place, [] => .ok place
  | place, name :: rest =>
    match tree.node? place with
    | none => .error .missing
    | some (.file _) => .error .notDirectory
    | some .directory =>
      if FilePath.nameLimit < name.length then .error .nameTooLong
      else follow (FilePath.advance place name) rest

def resolve (path : FilePath) : Except FileTrouble (List FilePath) := do
  if FilePath.holdsNull path then throw .nullInPath
  if path.isEmpty then throw .missing
  if !FilePath.fits path then throw .nameTooLong
  let place ← tree.follow [] (FilePath.names path)
  match tree.node? place with
  | some (.file _) => if FilePath.endsWithSlash path then throw .notDirectory else return place
  | _ => return place

def isDirectory (path : FilePath) : Bool :=
  match tree.resolve path with
  | .ok place => tree.node? place == some .directory
  | .error _ => false

def readAt (place : List FilePath) : Except FileTrouble String :=
  match tree.node? place with
  | none => .error .missing
  | some .directory => .error .isDirectory
  | some (.file (.binary _)) => .error .notText
  | some (.file (.text characters)) => .ok characters

def read (path : FilePath) : Except FileTrouble String := do
  tree.readAt (← tree.resolve path)

def parent (path : FilePath) : Except FileTrouble (List FilePath) := do
  let place ← tree.follow [] (FilePath.names path).dropLast
  match tree.node? place with
  | none => throw .missing
  | some (.file _) => throw .notDirectory
  | some .directory => return place

/-- The place of the file that writing to a path replaces or makes, in an existing directory. The last name has to be
one a file can have: dots name directories in use, and a slash after the name asks for a directory. -/
def target (path : FilePath) : Except FileTrouble (List FilePath) := do
  if FilePath.holdsNull path then throw .invalidArgument
  if !FilePath.fits path then throw .nameTooLong
  let directory ← tree.parent path
  match (FilePath.names path).getLast? with
  | none => throw .missing
  | some name =>
    if name == FilePath.dot || name == FilePath.dots then throw .busy
    if FilePath.nameLimit < name.length then throw .nameTooLong
    if FilePath.endsWithSlash path then throw .notDirectory
    let place := directory ++ [name]
    if tree.node? place == some .directory then throw .isDirectory
    return place

def write (path : FilePath) (text : String) : Except FileTrouble FileTree := do
  return tree.put (← tree.target path) (.file (.text text))

def namesBelow? (directory place : List FilePath) : Option (List FilePath) :=
  if directory.isPrefixOf place then
    (some (place.drop directory.length)).filter fun names =>
      names.head? != some FilePath.dots && names.head? != some FilePath.rootName
  else none

/-- The directory that holds what the names below another lead to has a path short enough to be listed. -/
def isListed (root : FilePath) (names : List FilePath) : Bool :=
  names.dropLast.isEmpty || FilePath.fits (FilePath.join root (FilePath.ofNames names.dropLast))

def entryBelow? (root : FilePath) (directory : List FilePath) (entry : List FilePath × FileNode) :
    Option (Option WalkEntry) :=
  (namesBelow? directory entry.1).map fun names =>
    if isListed root names then
      some ⟨FilePath.join root (FilePath.ofNames names), entry.2 != .directory⟩
    else none

def walk (root : FilePath) : List (Option WalkEntry) :=
  match tree.resolve root with
  | .error _ => [none]
  | .ok directory => tree.nodes.filterMap (entryBelow? root directory)

def changes (before : FileTree) : List (List FilePath × String) :=
  tree.nodes.filterMap fun (place, node) =>
    match node with
    | .file (.text text) => if before.node? place == some node then none else some (place, text)
    | _ => none

def readPattern (pattern : String) : Except String (List GlobToken) :=
  (Glob.parse pattern).mapError fun fault => "error parsing glob '" ++ pattern ++ "': " ++ fault.message

def matcher (patterns : List (List GlobToken)) : Except String (FilePath → Bool) :=
  let selection : Selection := ⟨patterns⟩
  match selection.fault? with
  | some fault => .error fault.message
  | none => .ok fun path => selection.contains path.display

def host : Host FileTree (List GlobToken) where
  isDirectory := isDirectory
  read tree path := (tree.read path).mapError FileTrouble.report
  replace tree path text := (tree.write path text).mapError FileTrouble.report
  walk := walk
  readPattern := readPattern
  matcher := matcher

end FileTree

end ScopedRename
