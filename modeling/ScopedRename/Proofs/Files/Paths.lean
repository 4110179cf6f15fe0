import Mathlib.Data.List.Infix
import Mathlib.Data.List.TakeWhile
import ScopedRename.Files.Tree
import ScopedRename.Proofs.Text.Bytes

/-!
Paths as bytes and as lists of names. The names of a path joined from two are those of both, and names that files can
have are read back from the path that goes through them. What a path below a directory is shown as spells the path
exactly if the path is a text.
-/

namespace ScopedRename

namespace FilePath

/-! ### The names of a path -/

theorem slash_not_mem_of_mem_parts {path name : FilePath} (part : name ∈ parts path) : slash ∉ name :=
  Text.not_mem_of_mem_splitOn (List.mem_filter.mp part).1

theorem ne_nil_of_mem_parts {path name : FilePath} (part : name ∈ parts path) : name ≠ [] := by
  have nonempty := (List.mem_filter.mp part).2
  simpa using nonempty

theorem parts_append_slash (before after : FilePath) : parts
    (before ++ slash :: after) = parts before ++ parts after := by
  unfold parts
  rw [List.splitOn_append_cons_self, List.filter_append]

theorem parts_slash_cons (after : FilePath) : parts (slash :: after) = parts after := parts_append_slash [] after

theorem parts_append {before : FilePath} (slashed : endsWithSlash before = true) (after : FilePath) :
    parts (before ++ after) = parts before ++ parts after := by
  obtain ⟨front, rfl⟩ := List.getLast?_eq_some_iff.mp (beq_iff_eq.mp slashed)
  have nothing : parts [] = [] := rfl
  rw [List.append_assoc, List.singleton_append, parts_append_slash, parts_append_slash, nothing, List.append_nil]

theorem isAbsolute_append {before : FilePath} (nonempty : before ≠ []) (after : FilePath) :
    isAbsolute (before ++ after) = isAbsolute before := by
  obtain ⟨first, rest, rfl⟩ := List.exists_cons_of_ne_nil nonempty
  rfl

theorem names_append {before after : FilePath} (nonempty : before ≠ [])
    (cut : parts (before ++ after) = parts before ++ parts after) :
    names (before ++ after) = names before ++ parts after := by
  unfold names
  rw [isAbsolute_append nonempty, cut]
  split <;> rfl

/-- A path below a directory goes through the names of the directory first. -/
theorem names_join (directory : FilePath) {below : FilePath} (relative : isAbsolute below = false) :
    names (join directory below) = names directory ++ parts below := by
  unfold join
  rw [relative, if_neg Bool.false_ne_true]
  by_cases empty : directory = []
  · subst empty
    have bare : names below = parts below := by
      unfold names
      rw [relative, if_neg Bool.false_ne_true]
    exact bare
  · have some : directory.isEmpty = false := by simpa using empty
    rw [some, Bool.false_or]
    split
    · rename_i slashed
      exact names_append empty (parts_append slashed below)
    · rw [← parts_slash_cons below]
      apply names_append empty
      rw [parts_append_slash, parts_slash_cons]

/-! ### Names of files -/

variable {name : FilePath} {place : List FilePath}

theorem isName_iff : isName name = true ↔ name ≠ [] ∧ slash ∉ name ∧ name ≠ dot ∧ name ≠ dots := by
  simp [isName, and_assoc]

theorem isName_ne_rootName (proper : isName name = true) : name ≠ rootName := by
  rintro rfl
  exact (isName_iff.mp proper).2.1 (by decide)

/-- A name leads down. -/
theorem advance_isName (proper : isName name = true) (start : List FilePath) :
    advance start name = start ++ [name] := by
  obtain ⟨-, -, noDot, noDots⟩ := isName_iff.mp proper
  have noRoot := isName_ne_rootName proper
  simp [advance, noDot, noDots, noRoot]

theorem isName_of_mem_parts {path : FilePath} (part : name ∈ parts path) (noDot : name ≠ dot) (noDots : name ≠ dots) :
    isName name = true :=
  isName_iff.mpr ⟨ne_nil_of_mem_parts part, slash_not_mem_of_mem_parts part, noDot, noDots⟩

theorem mem_names {path : FilePath} (member : name ∈ names path) : name = rootName ∨ name ∈ parts path := by
  unfold names at member
  split at member
  · exact List.mem_cons.mp member
  · exact Or.inr member

/-- A path that ends with the root is the root. -/
theorem names_eq_root {path : FilePath} (last : (names path).getLast? = some rootName) : names path = [rootName] := by
  have noPart : rootName ∉ parts path := fun part => slash_not_mem_of_mem_parts part List.mem_cons_self
  unfold names at last ⊢
  split at last
  · rename_i absolute
    rw [if_pos absolute]
    cases later : parts path with
    | nil => rfl
    | cons first rest =>
        rw [later, List.getLast?_cons_cons] at last
        exact absurd (later ▸ List.mem_of_getLast? last) noPart
  · exact absurd (List.mem_of_getLast? last) noPart

theorem descent_cons (first : FilePath) (rest : List FilePath) :
    descent (first :: rest) = if first = rootName then rest else (first :: rest).dropWhile (· == dots) := by
  simp [descent]

theorem descent_concat (noDots : name ≠ dots) (noRoot : name ≠ rootName) :
    descent (place ++ [name]) = descent place ++ [name] := by
  cases place with
  | nil => simp [descent, noDots, noRoot]
  | cons first rest =>
      rw [List.cons_append, descent_cons, descent_cons]
      split
      · rfl
      · rw [← List.cons_append, List.dropWhile_append]
        split
        · rename_i nothing
          simp [List.isEmpty_iff.mp nothing, noDots]
        · rfl

theorem descent_sublist (last : FilePath) : (descent place).Sublist (descent (place ++ [last])) := by
  cases place with
  | nil => exact List.nil_sublist _
  | cons first rest =>
      rw [List.cons_append, descent_cons, descent_cons]
      split
      · exact List.sublist_append_left _ _
      · rw [← List.cons_append, List.dropWhile_append]
        split
        · rename_i nothing
          rw [List.isEmpty_iff.mp nothing]
          exact List.nil_sublist _
        · exact List.sublist_append_left _ _

theorem descent_dots (up : ∀ name ∈ place, name = dots) : descent place = [] := by
  unfold descent
  split
  · rename_i atRoot
    have root := up rootName (List.mem_of_mem_head? (beq_iff_eq.mp atRoot))
    exact absurd root (by decide)
  · rw [List.dropWhile_eq_nil_iff]
    exact fun name member => beq_iff_eq.mpr (up name member)

/-- A step along a path leads to a place that names lead down to. -/
theorem descent_advance {path : FilePath} (led : ∀ known ∈ descent place, isName known = true)
    (taken : name ∈ names path) : ∀ known ∈ descent (advance place name), isName known = true := by
  unfold advance
  split
  · exact led
  · rename_i noDot
    split
    · simp [descent]
    · rename_i noRoot
      rw [beq_iff_eq] at noDot noRoot
      split
      · rename_i noDots
        rw [bne_iff_ne] at noDots
        have proper := isName_of_mem_parts ((mem_names taken).resolve_left noRoot) noDot noDots
        rw [descent_concat noDots noRoot]
        intro known member
        rcases List.mem_append.mp member with earlier | final
        · exact led known earlier
        · rw [List.mem_singleton.mp final]
          exact proper
      · split
        · rename_i up
          have above : ∀ known ∈ place ++ [dots], known = dots := by simpa [or_imp, forall_and] using up
          rw [descent_dots above]
          exact fun _ member => absurd member List.not_mem_nil
        · split
          · exact led
          · rcases List.eq_nil_or_concat place with rfl | ⟨before, last, rfl⟩
            · exact led
            · rw [List.concat_eq_append, List.dropLast_concat]
              exact fun known member => led known (List.concat_eq_append ▸ (descent_sublist last).mem member)

/-! ### Paths of names -/

theorem parts_ofNames (proper : ∀ name ∈ place, isName name = true) : parts (ofNames place) = place := by
  cases place with
  | nil => rfl
  | cons first rest =>
      have blocks : (ofNames (first :: rest)).splitOn slash = first :: rest :=
        List.splitOn_intercalate slash (fun name member => (isName_iff.mp (proper name member)).2.1)
          (List.cons_ne_nil _ _)
      unfold parts
      rw [blocks, List.filter_eq_self]
      intro name member
      simpa using (isName_iff.mp (proper name member)).1

theorem ofNames_cons_cons (first second : FilePath) (rest : List FilePath) :
    ofNames (first :: second :: rest) = first ++ slash :: ofNames (second :: rest) := by
  unfold ofNames
  rw [List.intercalate_cons_cons, List.append_assoc, List.singleton_append]

theorem isAbsolute_ofNames (proper : ∀ name ∈ place, isName name = true) : isAbsolute (ofNames place) = false := by
  cases place with
  | nil => rfl
  | cons first rest =>
      obtain ⟨nonempty, noSlash, -, -⟩ := isName_iff.mp (proper first List.mem_cons_self)
      have relative : isAbsolute first = false := by
        unfold isAbsolute
        rw [beq_eq_false_iff_ne]
        intro starts
        exact noSlash (List.mem_of_mem_head? starts)
      cases rest with
      | nil => rwa [ofNames, List.intercalate_singleton]
      | cons second rest => rw [ofNames_cons_cons, isAbsolute_append nonempty, relative]

theorem place_join (root : FilePath) (proper : ∀ name ∈ place, isName name = true) :
    FilePath.place (join root (ofNames place)) = FilePath.place root ++ place := by
  have down (start : List FilePath) : place.foldl advance start = start ++ place := by
    induction place generalizing start with
    | nil => exact (List.append_nil start).symm
    | cons first rest ih =>
        rw [List.foldl_cons, advance_isName (proper first List.mem_cons_self),
          ih (fun name member => proper name (List.mem_cons_of_mem _ member)), List.append_assoc]
        rfl
  unfold FilePath.place
  rw [names_join root (isAbsolute_ofNames proper), parts_ofNames proper, List.foldl_append, down]

/-- Past a depth, a step adds no name but the one it takes. -/
theorem advance_all {test : FilePath → Prop} (up : test dots) (root : test rootName) {depth : Nat}
    {start : List FilePath} (passed : test name) (before : ∀ known ∈ start.drop depth, test known) :
    ∀ known ∈ (advance start name).drop depth, test known := by
  have added (last : FilePath) (fine : test last) : ∀ known ∈ (start ++ [last]).drop depth, test known := by
    intro known member
    rw [List.drop_append] at member
    rcases List.mem_append.mp member with earlier | final
    · exact before known earlier
    · rw [List.mem_singleton.mp (List.mem_of_mem_drop final)]
      exact fine
  unfold advance
  repeat' split
  · exact before
  · intro known member
    rw [List.mem_singleton.mp (List.mem_of_mem_drop member)]
    exact root
  · exact added _ passed
  · exact added _ up
  · exact before
  · intro known member
    exact before known (((List.dropLast_sublist start).drop depth).mem member)

/-- Past the place of a directory, a path seen from it adds only names of its own, but for the root and ways up. -/
theorem mem_place_join {root below : FilePath}
    (member : name ∈ (FilePath.place (join root below)).drop (FilePath.place root).length) :
    name ∈ parts below ∨ name = dots ∨ name = rootName := by
  let test (known : FilePath) : Prop := known ∈ parts below ∨ known = dots ∨ known = rootName
  have steps {through start : List FilePath} (passed : ∀ known ∈ through, test known)
      (before : ∀ known ∈ start.drop (FilePath.place root).length, test known) :
      ∀ known ∈ (through.foldl advance start).drop (FilePath.place root).length, test known := by
    induction through generalizing start with
    | nil => exact before
    | cons first rest ih =>
        exact ih (fun known later => passed known (List.mem_cons_of_mem _ later))
          (advance_all (Or.inr (Or.inl rfl)) (Or.inr (Or.inr rfl)) (passed first List.mem_cons_self) before)
  cases absolute : isAbsolute below with
  | true =>
      have away : join root below = below := by
        unfold join
        rw [absolute, if_pos rfl]
      rw [away] at member
      refine steps (fun known through => ?_) (by simp) name member
      rcases mem_names through with rfl | part
      · exact Or.inr (Or.inr rfl)
      · exact Or.inl part
  | false =>
      unfold FilePath.place at member
      rw [names_join root absolute, List.foldl_append] at member
      refine steps (fun known part => Or.inl part) ?_ name member
      simp [FilePath.place]

/-- A path below a directory is cut from the whole path. -/
theorem below?_join (root : FilePath) (proper : ∀ name ∈ place, isName name = true) :
    below? root (join root (ofNames place)) = some (ofNames place) := by
  have through : names (join root (ofNames place)) = names root ++ place := by
    rw [names_join root (isAbsolute_ofNames proper), parts_ofNames proper]
  have noDot : place.filter (· != dot) = place := by
    rw [List.filter_eq_self]
    intro name member
    simpa using (isName_iff.mp (proper name member)).2.2.1
  have whole : components (join root (ofNames place)) = components root ++ place := by
    unfold components
    rw [through]
    cases names root with
    | nil =>
        cases place with
        | nil => rfl
        | cons first rest =>
            have later : rest.filter (· != dot) = rest := by
              rw [List.filter_eq_self]
              intro name member
              simpa using (isName_iff.mp (proper name (List.mem_cons_of_mem _ member))).2.2.1
            exact congrArg (first :: ·) later
    | cons first rest =>
        rw [List.cons_append]
        dsimp only
        rw [List.filter_append, noDot, List.cons_append]
  have starts : (components root).isPrefixOf (components root ++ place) = true :=
    List.isPrefixOf_iff_prefix.mpr (List.prefix_append _ _)
  unfold below?
  rw [whole, starts, if_pos rfl, List.drop_left]

/-! ### Paths that are texts -/

theorem ofNames_utf8 (pieces : List (List Char)) : ofNames (pieces.map Text.utf8) = Text.utf8
    (['/'].intercalate pieces) := by
  induction pieces with
  | nil => rfl
  | cons first rest ih =>
      cases rest with
      | nil =>
          rw [List.map_cons, List.map_nil, ofNames, List.intercalate_singleton, List.intercalate_singleton]
      | cons second rest =>
          rw [List.map_cons] at ih
          have between : Text.utf8 ['/'] = [slash] := by decide
          rw [List.map_cons, List.map_cons, ofNames_cons_cons, ih, List.intercalate_cons_cons, Text.utf8_append,
            Text.utf8_append, between, List.append_assoc, List.singleton_append]

/-- The names of a path that is a text are texts, spelled with its characters. -/
theorem exists_text_of_mem_parts {chars : List Char} (part : name ∈ parts (Text.utf8 chars)) :
    ∃ piece, name = Text.utf8 piece ∧ ∀ c ∈ piece, c ∈ chars := by
  have ascii : UInt8.ofNat '/'.toNat = slash := by decide
  have cut := Text.splitOn_utf8 '/' (by decide) chars
  rw [ascii] at cut
  have block := (List.mem_filter.mp part).1
  rw [cut] at block
  obtain ⟨piece, listed, rfl⟩ := List.mem_map.mp block
  refine ⟨piece, rfl, fun c member => ?_⟩
  obtain ⟨before, after, shape⟩ := List.append_of_mem listed
  rw [Text.append_of_splitOn shape]
  exact List.mem_append_left _ (List.mem_append_right _ member)

end FilePath

end ScopedRename
