import ScopedRename.Proofs.Fallible
import ScopedRename.Proofs.Files.Host

/-!
Trees of files as a host. No links stand in a tree, so the place that a path leads to depends on the path alone, and a
file below a directory is reached only through its own names. Main statement: a tree reads, replaces and walks its files
as a host does.
-/

namespace ScopedRename

namespace FileTree

open FilePath (join names advance isName isNamed descent fits holdsNull endsWithSlash nameLimit rootName ofNames)

variable {tree : FileTree} {start parent place : List FilePath} {node : FileNode} {path : FilePath}

/-! ### Nodes -/

theorem descent_ne_nil (named : isNamed place = true) : (descent place).isEmpty = false := by
  simpa using (Bool.and_eq_true_iff.mp named).1

theorem node?_of_mem (member : (place, node) ∈ tree.nodes) : tree.node? place = some node := by
  have below := descent_ne_nil (tree.named _ member)
  have found : tree.nodes.find? (·.1 == place) = some (place, node) := by
    obtain ⟨before, after, cut⟩ := List.append_of_mem member
    have distinct := tree.distinct
    rw [cut, List.map_append, List.map_cons] at distinct
    rw [List.find?_eq_some_iff_append]
    refine ⟨beq_iff_eq.mpr rfl, before, after, cut, ?_⟩
    intro entry earlier
    have apart := (List.nodup_append.mp distinct).2.2 entry.1 (List.mem_map_of_mem earlier) place List.mem_cons_self
    simpa using apart
  simp [node?, below, found]

theorem node?_put_of_ne {filled : List FilePath} (apart : place ≠ filled) (node : FileNode) :
    (tree.put filled node).node? place = tree.node? place := by
  by_cases named : isNamed filled = true
  · have differs : (filled == place) = false := beq_eq_false_iff_ne.mpr apart.symm
    have found : (tree.nodes.filter (·.1 != filled)).find? (·.1 == place) = tree.nodes.find? (·.1 == place) := by
      rw [List.find?_filter]
      congr 1
      funext entry
      by_cases same : entry.1 = place
      · simp [same, apart]
      · simp [same]
    simp [node?, put, named, found, differs]
  · simp [put, named]

theorem node?_put (named : isNamed place = true) (node : FileNode) : (tree.put place node).node? place = some node := by
  have below := descent_ne_nil named
  simp [node?, put, named, below]

/-! ### Below a directory -/

theorem namesBelow?_eq_some {directory below : List FilePath} (inside : namesBelow? directory place = some below) :
    place = directory ++ below ∧ below.head? ≠ some FilePath.dots ∧ below.head? ≠ some rootName := by
  unfold namesBelow? at inside
  split at inside
  · rename_i within
    obtain ⟨same, fine⟩ := Option.filter_eq_some_iff.mp inside
    obtain ⟨rest, rfl⟩ := List.isPrefixOf_iff_prefix.mp within
    rw [List.drop_left] at same
    cases same
    simpa using fine
  · cases inside

/-- Below a directory, only names lead down to a place. -/
theorem isName_of_isNamed {directory below : List FilePath} (named : isNamed (directory ++ below) = true)
    (noDots : below.head? ≠ some FilePath.dots) (noRoot : below.head? ≠ some rootName) :
    ∀ name ∈ below, isName name = true := by
  have led := (Bool.and_eq_true_iff.mp named).2
  have suffix : below <:+ descent (directory ++ below) := by
    unfold descent
    split
    · rename_i atRoot
      cases directory with
      | nil => exact absurd (beq_iff_eq.mp atRoot) noRoot
      | cons first rest => exact List.suffix_append rest below
    · rw [List.dropWhile_append]
      split
      · cases below with
        | nil => exact List.nil_suffix
        | cons first rest =>
            have stays : (first == FilePath.dots) = false := by simpa using noDots
            simp [stays]
      · exact List.suffix_append _ below
  exact fun name member => List.all_eq_true.mp led name (suffix.mem member)

/-! ### Following names -/

theorem follow_cons_eq_ok {name : FilePath} {rest : List FilePath} :
    tree.follow start (name :: rest) = .ok place ↔
      tree.node? start = some .directory ∧ name.length ≤ nameLimit ∧
        tree.follow (advance start name) rest = .ok place := by
  rw [follow]
  cases standing : tree.node? start with
  | none => simp
  | some node =>
      cases node with
      | file content => simp
      | directory =>
          by_cases long : nameLimit < name.length
          · simp [long, Nat.not_le.mpr long]
          · simp [long, Nat.le_of_not_lt long]

/-- Names that are followed lead where they lead when nothing is in their way. -/
theorem follow_eq_ok {through : List FilePath} (followed : tree.follow start through = .ok place) :
    place = through.foldl advance start := by
  induction through generalizing start with
  | nil =>
      cases followed
      rfl
  | cons first rest ih => exact ih (follow_cons_eq_ok.mp followed).2.2

theorem follow_descent {through : List FilePath} (passed : ∀ name ∈ through, name ∈ names path)
    (led : ∀ name ∈ descent start, isName name = true) (followed : tree.follow start through = .ok place) :
    ∀ name ∈ descent place, isName name = true := by
  induction through generalizing start with
  | nil =>
      cases followed
      exact led
  | cons first rest ih =>
      apply ih (fun name member => passed name (List.mem_cons_of_mem _ member)) _ (follow_cons_eq_ok.mp followed).2.2
      exact FilePath.descent_advance led (passed first List.mem_cons_self)

/-! ### Reading -/

theorem resolve_eq_ok (resolved : tree.resolve path = .ok place) : place = FilePath.place path := by
  unfold resolve at resolved
  simp only [check_eq_ok, bind_eq_ok] at resolved
  obtain ⟨-, -, -, reached, followed, taken⟩ := resolved
  have arrived : reached = place := by
    split at taken
    · split at taken
      · cases taken
      · cases taken
        rfl
    · cases taken
      rfl
  rw [← arrived]
  exact follow_eq_ok followed

theorem readAt_eq_ok {text : String} : tree.readAt place = .ok text ↔ tree.node? place = some (.file (.text text)) := by
  unfold readAt
  split <;> simp [*]

theorem read_eq_ok {text : String} (read : tree.read path = .ok text) :
    tree.node? (FilePath.place path) = some (.file (.text text)) := by
  obtain ⟨reached, resolved, taken⟩ := bind_eq_ok.mp read
  rw [← resolve_eq_ok resolved]
  exact readAt_eq_ok.mp taken

/-! ### Writing -/

theorem parent_eq_ok (found : tree.parent path = .ok parent) :
    tree.follow [] (names path).dropLast = .ok parent ∧ tree.node? parent = some .directory := by
  obtain ⟨reached, followed, taken⟩ := bind_eq_ok.mp found
  split at taken
  · cases taken
  · cases taken
  · rename_i directory
    cases taken
    exact ⟨followed, directory⟩

/-- Writing fills the place that the path leads to, and that place has a name. -/
theorem target_eq_ok (filled : tree.target path = .ok place) :
    place = FilePath.place path ∧ isNamed place = true := by
  unfold target at filled
  simp only [check_eq_ok, bind_eq_ok] at filled
  obtain ⟨-, -, parent, found, taken⟩ := filled
  obtain ⟨followed, directory⟩ := parent_eq_ok found
  split at taken
  · cases taken
  · rename_i name last
    simp only [check_eq_ok] at taken
    obtain ⟨noDots, -, -, free, taken⟩ := taken
    cases taken
    simp only [Bool.or_eq_true, beq_iff_eq, not_or] at noDots
    have noRoot : name ≠ rootName := by
      rintro rfl
      have ended := FilePath.names_eq_root last
      rw [ended] at followed
      cases followed
      exact free (by simp [node?, descent])
    have part := (FilePath.mem_names (List.mem_of_getLast? last)).resolve_left noRoot
    have proper := FilePath.isName_of_mem_parts part noDots.1 noDots.2
    constructor
    · obtain ⟨front, whole⟩ := List.getLast?_eq_some_iff.mp last
      have led := follow_eq_ok followed
      rw [whole, List.dropLast_concat] at led
      unfold FilePath.place
      rw [whole, List.foldl_append, ← led]
      exact (FilePath.advance_isName proper parent).symm
    · have led := follow_descent (fun _ member => (List.dropLast_sublist _).mem member) (by simp [descent]) followed
      simpa [isNamed, FilePath.descent_concat noDots.2 noRoot, proper] using led

theorem write_eq_ok {text : String} {after : FileTree} (wrote : tree.write path text = .ok after) :
    isNamed (FilePath.place path) = true ∧ after = tree.put (FilePath.place path) (.file (.text text)) := by
  obtain ⟨filled, found, taken⟩ := bind_eq_ok.mp wrote
  obtain ⟨rfl, named⟩ := target_eq_ok found
  cases taken
  exact ⟨named, rfl⟩

/-! ### Walking -/

theorem resolve_of_isDirectory (present : tree.isDirectory path = true) :
    tree.resolve path = .ok (FilePath.place path) ∧ tree.node? (FilePath.place path) = some .directory := by
  unfold isDirectory at present
  split at present
  · rename_i place resolved
    rw [← resolve_eq_ok resolved]
    exact ⟨resolved, beq_iff_eq.mp present⟩
  · cases present

theorem entryBelow?_eq_some {root : FilePath} {directory : List FilePath} {entry : List FilePath × FileNode}
    {found : WalkEntry} (inside : entryBelow? root directory entry = some (some found)) :
    ∃ below, namesBelow? directory entry.1 = some below ∧ found = ⟨join root (ofNames below), entry.2 != .directory⟩ := by
  obtain ⟨below, named, shown⟩ := Option.map_eq_some_iff.mp inside
  refine ⟨below, named, ?_⟩
  split at shown
  · exact (Option.some.inj shown).symm
  · cases shown

/-- A file that a walk finds stands at the place its path leads to. -/
theorem walk_finds {root : FilePath} {entry : List FilePath × FileNode}
    (member : entry ∈ tree.nodes) {found : WalkEntry}
    (inside : entryBelow? root (FilePath.place root) entry = some (some found)) (regular : found.isFile = true) :
    ∃ below content, (∀ name ∈ below, isName name = true) ∧ found.path = join root (ofNames below) ∧
      entry = (FilePath.place found.path, .file content) := by
  obtain ⟨below, named, rfl⟩ := entryBelow?_eq_some inside
  obtain ⟨place, node⟩ := entry
  obtain ⟨rfl, noDots, noRoot⟩ := namesBelow?_eq_some named
  have proper := isName_of_isNamed (tree.named _ member) noDots noRoot
  cases node with
  | directory => cases regular
  | file content => exact ⟨below, content, proper, rfl, by rw [FilePath.place_join root proper]⟩

/-! ### The host -/

theorem host_read (tree : FileTree) (path : FilePath) :
    host.read tree path = (tree.read path).mapError FileTrouble.report := rfl

theorem host_replace (tree : FileTree) (path : FilePath) (text : String) :
    host.replace tree path text = (tree.write path text).mapError FileTrouble.report := rfl

def files : host.Files (List FilePath) FileNode where
  node? := node?
  file := .file
  leads _ path := some (FilePath.place path)
  file_injective _ _ same := FileNode.file.inj same
  read_ok := by
    intro tree path place content text led stands read
    cases led
    rw [host_read] at read
    have now := read_eq_ok (mapError_eq_ok.mp read)
    rw [stands] at now
    cases now
    rfl
  replace_ok := by
    intro tree after path text replaced
    rw [host_replace] at replaced
    obtain ⟨named, rfl⟩ := write_eq_ok (mapError_eq_ok.mp replaced)
    exact ⟨FilePath.place path, rfl, node?_put named _, fun other apart => node?_put_of_ne apart _⟩
  leads_after _ led := led
  walk_file := by
    intro tree root entry present found regular
    have resolved := (resolve_of_isDirectory present).1
    change some entry ∈ walk tree root at found
    unfold walk at found
    rw [resolved] at found
    obtain ⟨⟨place, node⟩, member, inside⟩ := List.mem_filterMap.mp found
    obtain ⟨below, content, proper, path, same⟩ := walk_finds member inside regular
    exact ⟨below, FilePath.place entry.path, content, proper, path, rfl, node?_of_mem (same ▸ member)⟩
  walk_once := by
    intro tree root present
    have resolved := (resolve_of_isDirectory present).1
    change (walk tree root).Pairwise _
    unfold walk
    rw [resolved]
    dsimp only
    rw [List.pairwise_filterMap]
    refine (List.pairwise_map.mp tree.distinct).imp_of_mem ?_
    intro first second firstMember secondMember apart one inside other alsoInside left right foundLeft foundRight
      leftRegular rightRegular same
    cases foundLeft
    cases foundRight
    obtain ⟨_, _, _, _, here⟩ := walk_finds firstMember inside leftRegular
    obtain ⟨_, _, _, _, there⟩ := walk_finds secondMember alsoInside rightRegular
    rw [here, there] at apart
    exact apart (Option.some.inj same)

/-- Only the names of a file lead to it. -/
theorem files_unlinked (tree : FileTree) (root : FilePath) : files.Unlinked tree root := by
  intro below asked place proper here there name member
  cases here
  have same : FilePath.place (join root asked) = FilePath.place root ++ below := by
    rw [← FilePath.place_join root proper]
    exact Option.some.inj there
  have past : name ∈ (FilePath.place (join root asked)).drop (FilePath.place root).length := by
    rwa [same, List.drop_left]
  obtain ⟨-, -, -, noDots⟩ := FilePath.isName_iff.mp (proper name member)
  exact (FilePath.mem_place_join past).resolve_right fun other =>
    other.elim noDots (FilePath.isName_ne_rootName (proper name member))

end FileTree

end ScopedRename
