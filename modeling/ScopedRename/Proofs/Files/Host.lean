import ScopedRename.Command.Run
import ScopedRename.Proofs.Files.Paths

/-!
How a host treats its files. Places hold nodes, and the path of a file leads to the place that holds it. Reading, moving
a new file to a path and walking below a directory are told by what stands at the places.
-/

namespace ScopedRename

variable {Tree Pattern Place Node : Type}

/-- The places of a host's files, with what reading, replacing and walking mean for them. -/
structure Host.Files (host : Host Tree Pattern) (Place Node : Type) where
  /-- What stands at a place. -/
  node? : Tree → Place → Option Node
  /-- A regular file. -/
  file : FileContent → Node
  /-- The place whose node the last name of a path denotes. -/
  leads : Tree → FilePath → Option Place
  file_injective : Function.Injective file
  /-- A regular file is read as the text it holds. -/
  read_ok : ∀ {tree path place content text}, leads tree path = some place →
    node? tree place = some (file content) → host.read tree path = .ok text → content = .text text
  /-- A new file stands where its path leads, and every other place holds what it held. -/
  replace_ok : ∀ {tree after path text}, host.replace tree path text = .ok after →
    ∃ place, leads tree path = some place ∧ node? after place = some (file (.text text)) ∧
      ∀ other, other ≠ place → node? after other = node? tree other
  /-- Behind a new file there is no way to any other place. -/
  leads_after : ∀ {tree after path text asked place}, host.replace tree path text = .ok after →
    leads after asked = some place → leads tree asked = some place
  /-- A walk finds regular files, each by the names on the way down to it. -/
  walk_file : ∀ {tree root entry}, host.isDirectory tree root = true → some entry ∈ host.walk tree root →
    entry.isFile = true → ∃ below place content, (∀ name ∈ below, FilePath.isName name = true) ∧
      entry.path = FilePath.join root (FilePath.ofNames below) ∧ leads tree entry.path = some place ∧
      node? tree place = some (file content)
  /-- A walk comes to each file once. -/
  walk_once : ∀ {tree root}, host.isDirectory tree root = true → (host.walk tree root).Pairwise fun first second =>
    ∀ left right, first = some left → second = some right → left.isFile = true → right.isFile = true →
      leads tree left.path ≠ leads tree right.path

namespace Host.Files

def Unlinked {host : Host Tree Pattern} (files : host.Files Place Node) (tree : Tree) (root : FilePath) : Prop :=
  ∀ below asked place, (∀ name ∈ below, FilePath.isName name = true) →
    files.leads tree (FilePath.join root (FilePath.ofNames below)) = some place →
    files.leads tree (FilePath.join root asked) = some place → ∀ name ∈ below, name ∈ FilePath.parts asked

end Host.Files

end ScopedRename
