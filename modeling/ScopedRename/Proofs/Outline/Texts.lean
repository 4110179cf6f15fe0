import Mathlib.Data.Set.Function
import ScopedRename.Proofs.Outline.Respelling

/-!
The texts an outline records are those of identifiers, and keywords for types. A respelling that leaves these alone
leaves the outline alone, so it is enough for a respelling to be known on the identifiers of the code.
-/

namespace ScopedRename

def Code.identifiers (code : Code) : Set String :=
  { text | ∃ position, code.isIdentifier position = true ∧ code.text position = text }

namespace Code

variable (code : Code)

/-- Respellings that agree on the identifiers of code respell it alike. -/
theorem respell_eq_of_eqOn {first second : String → String} (agree : Set.EqOn first second code.identifiers) :
    code.respell first = code.respell second := by
  have words : code.layout.words.map (Lexeme.respell first) = code.layout.words.map (Lexeme.respell second) := by
    apply List.map_congr_left
    intro word member
    obtain ⟨position, found⟩ := List.mem_iff_getElem?.mp member
    rw [Layout.getElem?_words] at found
    unfold Lexeme.respell
    split
    · rename_i identifier
      have known : word.text ∈ code.identifiers := by
        refine ⟨position, ?_, ?_⟩
        · unfold isIdentifier word?
          rw [found]
          exact identifier
        · unfold text word?
          rw [found]
          rfl
      rw [agree known]
    · rfl
  unfold respell Layout.respell
  rw [words]

end Code

namespace Walk

variable {code : Code} {position limit : Nat} {walk after : Walk}

/-- All marks are on identifiers. -/
def MarksIdentifiers (code : Code) (walk : Walk) : Prop :=
  ∀ index, index ∈ walk.typeTokens ∨ index ∈ walk.pathTokens →
    ∃ word, code.isIdentifier word = true ∧ walk.layout.tokenIndex word = index

theorem MarksIdentifiers.isIdentifier (marks : MarksIdentifiers code walk) {word : Nat}
    (marked : walk.isTypeWord word = true ∨ walk.isPathWord word = true) : code.isIdentifier word = true := by
  unfold Outline.isTypeWord Outline.isPathWord at marked
  rw [List.contains_iff_mem, List.contains_iff_mem] at marked
  obtain ⟨other, identifier, same⟩ := marks _ marked
  exact Layout.tokenIndex_inj.mp same ▸ identifier

theorem Change.marksIdentifiers (change : Change code position limit walk after)
    (marks : MarksIdentifiers code walk) : MarksIdentifiers code after := by
  have fresh {words : List Nat} {index : Nat}
      (member : index ∈ (words.filter code.isIdentifier).map walk.layout.tokenIndex) :
      ∃ word, code.isIdentifier word = true ∧ walk.layout.tokenIndex word = index := by
    obtain ⟨word, listed, here⟩ := List.mem_map.mp member
    exact ⟨word, (List.mem_filter.mp listed).2, here⟩
  cases change with
  | assign => exact marks
  | markTypes =>
      rintro index (type | path)
      · rcases List.mem_append.mp type with new | before
        · exact fresh new
        · exact marks index (Or.inl before)
      · exact marks index (Or.inr path)
  | markPath =>
      rintro index (type | path)
      · exact marks index (Or.inl type)
      · rcases List.mem_append.mp path with new | before
        · exact fresh new
        · exact marks index (Or.inr before)
  | declare => exact marks
  | typeParameter =>
      rintro index (type | path)
      · exact marks index (Or.inl (List.mem_of_mem_filter type))
      · exact marks index (Or.inr path)
  | openScope => exact marks
  | settle _ outline =>
      unfold MarksIdentifiers
      rw [outline]
      exact marks

theorem Changes.marksIdentifiers (changes : Changes code position limit walk after)
    (marks : MarksIdentifiers code walk) : MarksIdentifiers code after := by
  induction changes with
  | refl => exact marks
  | tail _ change ih => exact change.marksIdentifiers ih

theorem run_marksIdentifiers (code : Code) : MarksIdentifiers code (run code (Walk.start code.layout) 0) := by
  have stopped : ∃ _ : Nat, MarksIdentifiers code (run code (Walk.start code.layout) 0) := by
    refine run_induction (fun _ walk => MarksIdentifiers code walk) ?_ _ _ ?_
    · intro walk position marks changes
      exact changes.marksIdentifiers marks
    · rintro index (impossible | impossible)
      · cases impossible
      · cases impossible
  obtain ⟨_, marks⟩ := stopped
  exact marks

end Walk

namespace Outline

theorem isIdentifier_of_namesType {code : Code} {word : Nat} (names : (Outline.ofCode code).NamesType word) :
    code.isIdentifier word = true := by
  rcases names with marked | ⟨declaration, member, _, here⟩
  · exact (Walk.run_marksIdentifiers code).isIdentifier (Or.inl marked)
  · rw [← here]
    exact (Walk.ofCode_named code declaration member).1

/-- The outline of respelled code is the respelled outline, if the respelling keeps identifiers apart. -/
theorem ofCode_respell {code : Code} {spell : String → String} (keeps : KeepsTypeKeywords spell)
    (apart : Set.InjOn spell code.identifiers) :
    Outline.ofCode (code.respell spell) = (Outline.ofCode code).respell spell := by
  refine respell_ofCode keeps ?_
  intro left right leftNames rightNames same
  have identifier {word : Nat} (names : (Outline.ofCode (code.respell spell)).NamesType word) :
      code.isIdentifier word = true := by
    rw [← code.respell_isIdentifier spell]
    exact isIdentifier_of_namesType names
  exact apart ⟨left, identifier leftNames, rfl⟩ ⟨right, identifier rightNames, rfl⟩ same

/-- Word by word, the first outline records what the second does, its names respelled. -/
structure RecordsLike (image outline : Outline) (spell : String → String) : Prop where
  scopes : image.scopes = outline.scopes.map (Scope.respell spell)
  declarations : image.declarations = outline.declarations.map (Declaration.respell spell)
  children : image.children = outline.children
  symbols : image.symbols = outline.symbols.map fun ((scope, name), ids) => ((scope, spell name), ids)
  named : ∀ position, image.declarationAt? position = outline.declarationAt? position
  homes : ∀ position, image.homeAt? position = outline.homeAt? position
  typeWords : ∀ position, image.isTypeWord position = outline.isTypeWord position
  pathWords : ∀ position, image.isPathWord position = outline.isPathWord position

theorem recordsLike_of_respell {image outline : Outline} [registered : image.Registered]
    [former : outline.Registered] {spell : String → String} (same : image.respell id = outline.respell spell)
    (apart : ∀ left ∈ outline.declarations, ∀ right ∈ outline.declarations,
      spell left.name = spell right.name → left.name = right.name) : image.RecordsLike outline spell := by
  have declarations : image.declarations = outline.declarations.map (Declaration.respell spell) := by
    rw [← map_declaration_respell_id image.declarations]
    exact congrArg Outline.declarations same
  have children : (image.respell id).children = (outline.respell spell).children := congrArg Outline.children same
  refine ⟨?_, declarations, children, ?_, ?_, ?_, ?_, ?_⟩
  · rw [← map_scope_respell_id image.scopes]
    exact congrArg Outline.scopes same
  · have entries : image.declarations.toList.map Declaration.entry =
        (outline.declarations.toList.map Declaration.entry).map (Prod.map (Prod.map id spell) id) := by
      rw [declarations, Array.toList_map, List.map_map, List.map_map]
      rfl
    rw [registered.symbols, former.symbols, entries]
    refine Register.ofEntries_map _ ?_
    rw [List.map_map]
    intro left leftListed right rightListed alike
    obtain ⟨first, firstMember, rfl⟩ := List.mem_map.mp leftListed
    obtain ⟨second, secondMember, rfl⟩ := List.mem_map.mp rightListed
    obtain ⟨scopes, names⟩ := Prod.mk.inj alike
    exact Prod.ext scopes (apart first (Array.mem_toList_iff.mp firstMember) second
      (Array.mem_toList_iff.mp secondMember) names)
  · intro position
    rw [← image.respell_declarationAt?, same, respell_declarationAt?]
  · intro position
    rw [← image.respell_homeAt?, same, respell_homeAt?]
  · intro position
    rw [← image.respell_isTypeWord, same, respell_isTypeWord]
  · intro position
    rw [← image.respell_isPathWord, same, respell_isPathWord]

structure Records (outline : Outline) (texts : Set String) : Prop where
  scopeName : ∀ scope ∈ outline.scopes, ∀ name, scope.name = some name → name ∈ texts
  supertype : ∀ scope ∈ outline.scopes, ∀ base ∈ scope.supertypes, base ∈ texts
  name : ∀ declaration ∈ outline.declarations, declaration.name ∈ texts
  type : ∀ declaration ∈ outline.declarations, ∀ type, declaration.declaredType = some type → type.base ∈ texts

theorem Records.mono {outline : Outline} {texts more : Set String} (records : outline.Records texts)
    (subset : texts ⊆ more) : outline.Records more where
  scopeName scope member name named := subset (records.scopeName scope member name named)
  supertype scope member base listed := subset (records.supertype scope member base listed)
  name declaration member := subset (records.name declaration member)
  type declaration member type typed := subset (records.type declaration member type typed)

/-- Two respellings that agree on what an outline records respell it alike. -/
theorem Records.respell_eq {outline : Outline} {texts : Set String} (records : outline.Records texts)
    {first second : String → String} (agree : Set.EqOn first second texts)
    (words : outline.layout.respell first = outline.layout.respell second) :
    outline.respell first = outline.respell second := by
  have scopes : outline.scopes.map (Scope.respell first) = outline.scopes.map (Scope.respell second) := by
    apply Array.map_congr_left
    intro scope member
    unfold Scope.respell
    have name : scope.name.map first = scope.name.map second := by
      cases named : scope.name with
      | none => rfl
      | some name => exact congrArg some (agree (records.scopeName scope member name named))
    have supertypes : scope.supertypes.map first = scope.supertypes.map second :=
      List.map_congr_left fun base listed => agree (records.supertype scope member base listed)
    rw [name, supertypes]
  have declarations :
      outline.declarations.map (Declaration.respell first) = outline.declarations.map (Declaration.respell second) := by
    apply Array.map_congr_left
    intro declaration member
    unfold Declaration.respell
    have type : declaration.declaredType.map (DeclaredType.respell first) =
        declaration.declaredType.map (DeclaredType.respell second) := by
      cases typed : declaration.declaredType with
      | none => rfl
      | some type =>
          unfold DeclaredType.respell
          rw [Option.map_some, Option.map_some, agree (records.type declaration member type typed)]
    rw [agree (records.name declaration member), type]
  unfold respell
  rw [scopes, declarations, words]

/-- A respelling that leaves an outline alone leaves alone whatever the outline records. -/
theorem records_of_respell_eq {outline : Outline} {spell : String → String}
    (same : outline.respell spell = outline.respell id) : outline.Records { text | spell text = text } := by
  have scopes : outline.scopes.map (Scope.respell spell) = outline.scopes :=
    (congrArg Outline.scopes same).trans (map_scope_respell_id _)
  have declarations : outline.declarations.map (Declaration.respell spell) = outline.declarations :=
    (congrArg Outline.declarations same).trans (map_declaration_respell_id _)
  have scope {entry : Scope} (member : entry ∈ outline.scopes) : entry.respell spell = entry := by
    obtain ⟨place, found⟩ := Array.mem_iff_getElem?.mp member
    have again := found
    rw [← scopes, Array.getElem?_map, found] at again
    exact Option.some.inj again
  have declared {declaration : Declaration} (member : declaration ∈ outline.declarations) :
      declaration.respell spell = declaration := by
    obtain ⟨place, found⟩ := Array.mem_iff_getElem?.mp member
    have again := found
    rw [← declarations, Array.getElem?_map, found] at again
    exact Option.some.inj again
  refine ⟨?_, ?_, fun declaration member => congrArg Declaration.name (declared member), ?_⟩
  · intro entry member name named
    have kept := congrArg Scope.name (scope member)
    unfold Scope.respell at kept
    rw [named] at kept
    exact Option.some.inj kept
  · intro entry member base listed
    have kept : entry.supertypes.map spell = entry.supertypes := congrArg Scope.supertypes (scope member)
    exact List.map_inj_left.mp (kept.trans (List.map_id _).symm) base listed
  · intro declaration member type typed
    have kept := congrArg Declaration.declaredType (declared member)
    unfold Declaration.respell at kept
    rw [typed] at kept
    exact congrArg DeclaredType.base (Option.some.inj kept)

open Classical in
/-- An outline records texts of identifiers and type keywords only. -/
theorem ofCode_records (code : Code) :
    (Outline.ofCode code).Records (code.identifiers ∪ { text | isTypeKeyword text = true }) := by
  -- a respelling that leaves exactly these texts alone
  let other (text : String) : String := if text = "" then "0" else ""
  let spell (text : String) : String :=
    if text ∈ code.identifiers ∪ { text | isTypeKeyword text = true } then text else other text
  have otherKeyword (text : String) : isTypeKeyword (other text) = false := by
    dsimp only [other]
    split
    · decide
    · decide
  have keeps : KeepsTypeKeywords spell := by
    refine ⟨fun text keyword => if_pos (Or.inr keyword), ?_⟩
    intro text
    dsimp only [spell]
    split
    · rfl
    · rename_i unknown
      rw [otherKeyword]
      exact (Bool.eq_false_iff.mpr fun keyword => unknown (Or.inr keyword)).symm
  have fixed (text : String) (known : text ∈ code.identifiers) : spell text = text := if_pos (Or.inl known)
  have apart : Set.InjOn spell code.identifiers := by
    intro left leftKnown right rightKnown same
    rw [fixed left leftKnown, fixed right rightKnown] at same
    exact same
  have sameCode : code.respell spell = code.respell id := code.respell_eq_of_eqOn fun text known => fixed text known
  have same := ofCode_respell keeps apart
  rw [sameCode, ofCode_respell KeepsTypeKeywords.id (Set.injOn_id _)] at same
  refine (records_of_respell_eq same.symm).mono ?_
  intro text kept
  by_contra unknown
  have replaced : other text = text := (if_neg unknown).symm.trans kept
  dsimp only [other] at replaced
  split at replaced
  · rename_i empty
    rw [empty] at replaced
    exact absurd replaced (by decide)
  · rename_i nonempty
    exact nonempty replaced.symm

end Outline

end ScopedRename
