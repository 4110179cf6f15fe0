import Mathlib.Data.List.Find
import Mathlib.Data.List.Induction
import ScopedRename.Proofs.Outline.Change

/-!
The registers of an outline: the scopes inside each scope, the declarations of each name in each scope, and the
declaration named by each token. They are kept up one entry at a time while scopes open and names are declared. Every
elementary change of a walk leaves them in step with the scopes and declarations there are, so in the outline of code
they list exactly those, in order. Only tokens that are words are assigned to scopes.
-/

namespace ScopedRename

namespace Register

variable {Key : Type} [DecidableEq Key] {register : Register Key} {key other : Key} {number : Nat}

theorem listed_cons (entry : Key × List Nat) :
    listed (entry :: register) key = if key = entry.1 then entry.2 else register.listed key := by
  unfold listed
  rw [List.lookup_cons]
  by_cases here : key = entry.1
  · rw [if_pos here, beq_iff_eq.mpr here]
    rfl
  · rw [if_neg here, beq_false_of_ne here]

theorem listed_enter :
    (register.enter key number).listed other =
      if other = key then register.listed other ++ [number] else register.listed other := by
  induction register with
  | nil => exact listed_cons (key, [number])
  | cons entry rest ih =>
      unfold enter
      split
      · rename_i known
        rw [listed_cons, listed_cons, ← known]
        by_cases here : other = entry.1
        · rw [if_pos here, if_pos here, if_pos here]
        · rw [if_neg here, if_neg here, if_neg here]
      · rename_i different
        rw [listed_cons, listed_cons, ih]
        by_cases here : other = entry.1
        · rw [if_pos here, if_pos here, if_neg (here ▸ different)]
        · rw [if_neg here, if_neg here]

theorem mem_keys_enter :
    other ∈ (register.enter key number).map Prod.fst ↔ other = key ∨ other ∈ register.map Prod.fst := by
  induction register with
  | nil => simp [enter]
  | cons entry rest ih =>
      unfold enter
      split
      · rename_i same
        rw [List.map_cons, List.map_cons, List.mem_cons, same, or_self_left]
      · rw [List.map_cons, List.map_cons, List.mem_cons, List.mem_cons, ih, or_left_comm]

theorem keys_enter_nodup (nodup : (register.map Prod.fst).Nodup) :
    ((register.enter key number).map Prod.fst).Nodup := by
  induction register with
  | nil => exact List.pairwise_singleton _ key
  | cons entry rest ih =>
      obtain ⟨fresh, further⟩ := List.nodup_cons.mp nodup
      unfold enter
      split
      · exact nodup
      · rename_i different
        refine List.nodup_cons.mpr ⟨?_, ih further⟩
        rw [mem_keys_enter]
        exact not_or.mpr ⟨different, fresh⟩

/-- A register lists a number for a key if the one list it has for the key does. -/
theorem mem_listed_iff (nodup : (register.map Prod.fst).Nodup) :
    number ∈ register.listed key ↔ ∃ numbers, (key, numbers) ∈ register ∧ number ∈ numbers := by
  induction register with
  | nil => simp [listed]
  | cons entry rest ih =>
      obtain ⟨fresh, further⟩ := List.nodup_cons.mp nodup
      rw [listed_cons]
      by_cases here : key = entry.1
      · rw [if_pos here]
        constructor
        · intro member
          exact ⟨entry.2, here ▸ List.mem_cons_self, member⟩
        · rintro ⟨numbers, member, among⟩
          rcases List.mem_cons.mp member with first | later
          · rw [← first]
            exact among
          · exact absurd (here ▸ List.mem_map_of_mem later) fresh
      · rw [if_neg here, ih further]
        refine exists_congr fun numbers => and_congr_left fun _ => ?_
        rw [List.mem_cons]
        refine (or_iff_right ?_).symm
        rintro rfl
        exact here rfl

theorem listed_of_mem (nodup : (register.map Prod.fst).Nodup) {numbers : List Nat}
    (member : (key, numbers) ∈ register) :
    register.listed key = numbers := by
  induction register with
  | nil => cases member
  | cons entry rest ih =>
      obtain ⟨fresh, further⟩ := List.nodup_cons.mp nodup
      rw [listed_cons]
      rcases List.mem_cons.mp member with first | later
      · rw [← first, if_pos rfl]
      · rw [if_neg, ih further later]
        rintro rfl
        exact fresh (List.mem_map.mpr ⟨_, later, rfl⟩)

def ofEntries (entries : List (Key × Nat)) : Register Key :=
  entries.foldl (fun register entry => register.enter entry.1 entry.2) []

theorem ofEntries_concat (entries : List (Key × Nat)) :
    ofEntries (entries ++ [(key, number)]) = (ofEntries entries).enter key number :=
  List.foldl_concat ..

theorem keys_ofEntries_nodup (entries : List (Key × Nat)) : ((ofEntries entries).map Prod.fst).Nodup := by
  induction entries using List.reverseRecOn with
  | nil => exact List.nodup_nil
  | append_singleton entries entry ih =>
      rw [ofEntries_concat]
      exact keys_enter_nodup ih

/-- Keys that are kept apart can be changed before they are entered or after. -/
theorem enter_map {Other : Type} [DecidableEq Other] {change : Key → Other}
    (apart : ∀ known ∈ register.map Prod.fst, change known = change key → known = key) :
    enter (change key) number (register.map (Prod.map change id)) =
      (register.enter key number).map (Prod.map change id) := by
  induction register with
  | nil => rfl
  | cons entry rest ih =>
      have further := ih fun known member => apart known (List.mem_cons_of_mem _ member)
      obtain ⟨known, numbers⟩ := entry
      rw [List.map_cons, Prod.map_apply, enter, enter]
      by_cases same : known = key
      · rw [if_pos same, if_pos (congrArg change same)]
        rfl
      · rw [if_neg same, if_neg fun image => same (apart known List.mem_cons_self image), further]
        rfl

theorem mem_keys_ofEntries (entries : List (Key × Nat)) :
    key ∈ (ofEntries entries).map Prod.fst ↔ key ∈ entries.map Prod.fst := by
  induction entries using List.reverseRecOn with
  | nil => exact Iff.rfl
  | append_singleton entries entry ih =>
      rw [ofEntries_concat, mem_keys_enter, ih, List.map_append, List.mem_append, List.map_singleton,
        List.mem_singleton, or_comm]

theorem ofEntries_map {Other : Type} [DecidableEq Other] {change : Key → Other} (entries : List (Key × Nat))
    (apart : ∀ left ∈ entries.map Prod.fst, ∀ right ∈ entries.map Prod.fst, change left = change right →
      left = right) :
    ofEntries (entries.map (Prod.map change id)) = (ofEntries entries).map (Prod.map change id) := by
  induction entries using List.reverseRecOn with
  | nil => rfl
  | append_singleton entries entry ih =>
      rw [List.map_append] at apart
      have earlier := ih fun left leftMember right rightMember =>
        apart left (List.mem_append_left _ leftMember) right (List.mem_append_left _ rightMember)
      rw [List.map_append, List.map_singleton, Prod.map, ofEntries_concat, ofEntries_concat, earlier]
      refine enter_map ?_
      intro known member
      exact apart known (List.mem_append_left _ ((mem_keys_ofEntries entries).mp member)) _
        (List.mem_append_right _ List.mem_cons_self)

theorem listed_ofEntries (entries : List (Key × Nat)) :
    (ofEntries entries).listed key = (entries.filter (·.1 = key)).map (·.2) := by
  induction entries using List.reverseRecOn with
  | nil => rfl
  | append_singleton entries entry ih =>
      rw [ofEntries_concat, listed_enter, List.filter_append, List.map_append, ih]
      by_cases same : key = entry.1
      · rw [if_pos same, List.filter_singleton, same, decide_eq_true rfl]
        rfl
      · rw [if_neg same, List.filter_singleton, decide_eq_false (Ne.symm same)]
        exact (List.append_nil _).symm

end Register

namespace Scope

def entry? (scope : Scope) : Option (ScopeId × ScopeId) := scope.parent.map (·, scope.id)

end Scope

namespace Declaration

def entry (declaration : Declaration) : (ScopeId × String) × DeclarationId :=
  ((declaration.scope, declaration.name), declaration.id)

end Declaration

namespace Outline

section Numbered

variable {item : Type} {number : item → Nat} {items : List item}

def Numbered (number : item → Nat) (items : List item) : Prop :=
  ∀ place entry, items[place]? = some entry → number entry = place

theorem Numbered.concat {last : item} (numbered : Numbered number (items ++ [last])) :
    Numbered number items ∧ number last = items.length := by
  refine ⟨?_, numbered _ last List.getElem?_concat_length⟩
  intro place entry found
  exact numbered place entry ((List.getElem?_append_left (List.getElem?_eq_some_iff.mp found).1).trans found)

theorem Numbered.filter (numbered : Numbered number items) (test : item → Bool) :
    (items.filter test).map number = (List.range items.length).filter fun place => (items[place]?).any test := by
  induction items using List.reverseRecOn with
  | nil => rfl
  | append_singleton items last ih =>
      obtain ⟨earlier, lastNumber⟩ := numbered.concat
      have same : ((List.range items.length).filter fun place => ((items ++ [last])[place]?).any test) =
          (List.range items.length).filter fun place => (items[place]?).any test := by
        refine List.filter_congr fun place member => ?_
        rw [List.getElem?_append_left (List.mem_range.mp member)]
      rw [List.length_append, List.length_singleton, List.range_succ, List.filter_append, List.filter_append,
        List.map_append, ih earlier, same, List.filter_singleton, List.filter_singleton,
        List.getElem?_concat_length, Option.any_some]
      cases test last with
      | false => rfl
      | true => exact congrArg (_ ++ [·]) lastNumber

/-- The latest item with a key is found first when looking from the end. -/
theorem Numbered.lookup_reverse (numbered : Numbered number items) (key : item → Nat) (sought : Nat) :
    (items.map fun entry => (key entry, number entry)).reverse.lookup sought =
      (List.range items.length).reverse.find? fun place => (items[place]?).any (key · == sought) := by
  induction items using List.reverseRecOn with
  | nil => rfl
  | append_singleton items last ih =>
      obtain ⟨earlier, lastNumber⟩ := numbered.concat
      have same : (List.range items.length).reverse.find?
          (fun place => ((items ++ [last])[place]?).any (key · == sought)) =
          (List.range items.length).reverse.find? fun place => (items[place]?).any (key · == sought) := by
        refine List.find?_congr fun place member => ?_
        rw [List.getElem?_append_left (List.mem_range.mp (List.mem_reverse.mp member))]
      rw [List.map_append, List.reverse_append, List.length_append, List.length_singleton, List.range_succ,
        List.reverse_append, List.map_singleton, List.reverse_singleton, List.reverse_singleton, List.singleton_append,
        List.singleton_append, List.lookup_cons, List.find?_cons, List.getElem?_concat_length, Option.any_some, same,
        ih earlier, lastNumber, BEq.comm]

end Numbered

/-- Scopes and declarations are numbered in order, and the registers list them all. -/
class Registered (outline : Outline) : Prop where
  scopeId : ∀ id scope, outline.scope? id = some scope → scope.id = id
  declarationId : ∀ id declaration, outline.declaration? id = some declaration → declaration.id = id
  children : outline.children = .ofEntries (outline.scopes.toList.filterMap Scope.entry?)
  symbols : outline.symbols = .ofEntries (outline.declarations.toList.map Declaration.entry)
  named : outline.named = (outline.declarations.toList.map fun declaration =>
    (outline.layout.tokenIndex declaration.position, declaration.id)).reverse
  homes : ∀ entry ∈ outline.homes, ∃ position < outline.layout.size, outline.layout.tokenIndex position = entry.1

section Reading

variable (outline : Outline) [registered : outline.Registered]

theorem numbered_scopes : Numbered Scope.id outline.scopes.toList := by
  intro place scope found
  rw [Array.getElem?_toList] at found
  exact registered.scopeId place scope found

theorem numbered_declarations : Numbered Declaration.id outline.declarations.toList := by
  intro place declaration found
  rw [Array.getElem?_toList] at found
  exact registered.declarationId place declaration found

theorem childrenOf_eq (scope : ScopeId) :
    outline.childrenOf scope = outline.scopeIds.filter fun inner => outline.parent? inner == some scope := by
  have picked (scopes : List Scope) : ((scopes.filterMap Scope.entry?).filter (·.1 = scope)).map (·.2) =
      (scopes.filter (·.parent == some scope)).map (·.id) := by
    induction scopes with
    | nil => rfl
    | cons inner rest ih =>
        unfold Scope.entry? at ih ⊢
        cases parent : inner.parent with
        | none => simp [parent, ih]
        | some outer => by_cases same : outer = scope <;> simp [parent, same, ih]
  unfold childrenOf scopeIds
  rw [registered.children, Register.listed_ofEntries, picked, outline.numbered_scopes.filter, Array.length_toList]
  refine List.filter_congr fun inner _ => ?_
  unfold parent? scope?
  rw [Array.getElem?_toList]
  cases outline.scopes[inner]? with
  | none => rfl
  | some entry => rfl

theorem listed_symbols (scope : ScopeId) (name : String) :
    outline.symbols.listed (scope, name) = outline.declarationIds.filter fun id =>
      (outline.declaration? id).any fun declaration => declaration.scope == scope && declaration.name == name := by
  have picked (declarations : List Declaration) :
      ((declarations.map Declaration.entry).filter (·.1 = (scope, name))).map (·.2) =
        (declarations.filter fun declaration => declaration.scope == scope && declaration.name == name).map (·.id) := by
    rw [List.filter_map, List.map_map]
    refine congrArg (List.map _) (List.filter_congr fun declaration _ => ?_)
    simp [Declaration.entry, Bool.decide_and, beq_eq_decide]
  unfold declarationIds declaration?
  rw [registered.symbols, Register.listed_ofEntries, picked, outline.numbered_declarations.filter, Array.length_toList]
  simp only [Array.getElem?_toList]

theorem declaredIn_eq (scope : ScopeId) (name : String) (space : NameSpace) :
    outline.declaredIn scope name space = outline.declarationIds.filter fun id =>
      (outline.declaration? id).any fun declaration =>
        declaration.scope == scope && declaration.name == name && declaration.kind.space == space := by
  unfold declaredIn
  rw [listed_symbols, List.filter_filter]
  refine List.filter_congr fun id _ => ?_
  cases outline.declaration? id with
  | none => rfl
  | some declaration => exact Bool.and_comm _ _

theorem declaredIn_pairwise (scope : ScopeId) (name : String) (space : NameSpace) :
    (outline.declaredIn scope name space).Pairwise (· < ·) := by
  rw [declaredIn_eq]
  exact List.pairwise_lt_range.filter _

theorem declaredIn_nodup (scope : ScopeId) (name : String) (space : NameSpace) :
    (outline.declaredIn scope name space).Nodup :=
  (outline.declaredIn_pairwise scope name space).imp Nat.ne_of_lt

theorem declarationAt?_eq (position : Nat) :
    outline.declarationAt? position =
      outline.declarationIds.reverse.find? fun id => (outline.declaration? id).any (·.position == position) := by
  unfold declarationAt? declarationIds declaration?
  rw [registered.named, outline.numbered_declarations.lookup_reverse, Array.length_toList]
  have same (declaration : Declaration) : (outline.layout.tokenIndex declaration.position ==
      outline.layout.tokenIndex position) = (declaration.position == position) := by
    rw [beq_eq_beq, Layout.tokenIndex_inj]
  simp only [Array.getElem?_toList, same]

/-- Only words are assigned to scopes. -/
theorem homeAt?_of_lookup {index : Nat} {scope : ScopeId} (found : outline.homes.lookup index = some scope) :
    ∃ position < outline.layout.size,
      outline.layout.tokenIndex position = index ∧ outline.homeAt? position = some scope := by
  obtain ⟨before, after, split, _⟩ := List.lookup_eq_some_iff.mp found
  have member : (index, scope) ∈ outline.homes := split ▸ List.mem_append_right _ List.mem_cons_self
  obtain ⟨position, inside, rfl⟩ := registered.homes _ member
  exact ⟨position, inside, rfl, found⟩

theorem lt_size_of_homeAt? {position : Nat} {scope : ScopeId} (found : outline.homeAt? position = some scope) :
    position < outline.layout.size := by
  obtain ⟨place, inside, same, _⟩ := outline.homeAt?_of_lookup found
  exact Layout.tokenIndex_inj.mp same ▸ inside

end Reading

/-! ### The scopes of tokens -/

section Settled

variable (outline : Outline) {last : ScopeId} {indices : List Nat}

theorem length_settled : (outline.settled last indices).length = indices.length := by
  induction indices generalizing last with
  | nil => rfl
  | cons index rest ih => exact congrArg Nat.succ ih

theorem length_scopesOfTokens : outline.scopesOfTokens.length = outline.layout.tokens.size :=
  outline.length_settled.trans List.length_range

theorem getElem?_settled {place index : Nat} {scope : ScopeId} (listed : indices[place]? = some index)
    (found : outline.homes.lookup index = some scope) : (outline.settled last indices)[place]? = some scope := by
  induction indices generalizing last place with
  | nil => cases listed
  | cons first rest ih =>
      cases place with
      | zero =>
          cases listed
          unfold settled
          rw [found]
          rfl
      | succ place => exact ih listed

/-- A word that was assigned to a scope is in that scope. -/
theorem getElem?_scopesOfTokens {position : Nat} {scope : ScopeId} (inside : position < outline.layout.size)
    (found : outline.homeAt? position = some scope) :
    outline.scopesOfTokens[outline.layout.tokenIndex position]? = some scope :=
  outline.getElem?_settled (List.getElem?_range (Layout.tokenIndex_lt inside)) found

theorem mem_settled {scope : ScopeId} (member : scope ∈ outline.settled last indices) :
    scope = last ∨ ∃ index, outline.homes.lookup index = some scope := by
  induction indices generalizing last with
  | nil => cases member
  | cons index rest ih =>
      unfold settled at member
      cases found : outline.homes.lookup index with
      | none =>
          rw [found] at member
          rcases List.mem_cons.mp member with first | later
          · exact Or.inl first
          · exact ih later
      | some home =>
          rw [found] at member
          rcases List.mem_cons.mp member with first | later
          · exact Or.inr ⟨index, first ▸ found⟩
          · rcases ih later with same | assigned
            · exact Or.inr ⟨index, same ▸ found⟩
            · exact Or.inr assigned

theorem settled_congr {left right : Outline} (homes : ∀ index, left.homes.lookup index = right.homes.lookup index) :
    left.settled last indices = right.settled last indices := by
  induction indices generalizing last with
  | nil => rfl
  | cons index rest ih =>
      unfold settled
      rw [homes]
      exact congrArg (List.cons _) ih

/-- Where the words are among the tokens and the scopes that these were assigned to decide the scopes of all tokens. -/
theorem scopesOfTokens_congr {left right : Outline} [left.Registered] [right.Registered]
    (size : left.layout.tokens.size = right.layout.tokens.size) (indices : left.layout.indices = right.layout.indices)
    (homes : ∀ position, left.homeAt? position = right.homeAt? position) :
    left.scopesOfTokens = right.scopesOfTokens := by
  have index (position : Nat) : left.layout.tokenIndex position = right.layout.tokenIndex position := by
    unfold Layout.tokenIndex
    rw [size, indices]
  unfold scopesOfTokens
  rw [size]
  refine settled_congr fun place => Option.ext fun scope => ?_
  constructor
  · intro found
    obtain ⟨position, _, rfl, here⟩ := left.homeAt?_of_lookup found
    rw [index, ← here, homes]
    rfl
  · intro found
    obtain ⟨position, _, rfl, here⟩ := right.homeAt?_of_lookup found
    rw [← index, ← here, ← homes]
    rfl

end Settled

/-! ### Elementary changes -/

theorem Registered.congr {outline other : Outline} (registered : outline.Registered)
    (scopes : other.scopes = outline.scopes) (declarations : other.declarations = outline.declarations)
    (children : other.children = outline.children) (symbols : other.symbols = outline.symbols)
    (layout : other.layout = outline.layout) (named : other.named = outline.named)
    (homes : other.homes = outline.homes) : other.Registered where
  scopeId := by
    unfold scope?
    rw [scopes]
    exact registered.scopeId
  declarationId := by
    unfold declaration?
    rw [declarations]
    exact registered.declarationId
  children := by rw [children, scopes, registered.children]
  symbols := by rw [symbols, declarations, registered.symbols]
  named := by rw [named, declarations, layout, registered.named]
  homes := by
    rw [homes, layout]
    exact registered.homes

end Outline

namespace Walk

open Outline

variable {code : Code} {walk after : Walk} {position limit : Nat}

theorem declare_registered (registered : walk.Registered) (declaration : Declaration) :
    (walk.declare declaration).Registered where
  scopeId := registered.scopeId
  declarationId id other found := by
    unfold declare declaration? at found
    dsimp only at found
    rw [Array.getElem?_push] at found
    split at found
    · rename_i last
      cases found
      exact last.symm
    · exact registered.declarationId id other found
  children := registered.children
  symbols := by
    unfold declare
    rw [Array.toList_push, List.map_append, List.map_singleton, registered.symbols]
    exact (Register.ofEntries_concat _).symm
  named := by
    unfold declare
    rw [Array.toList_push, List.map_append, List.reverse_append, registered.named]
    rfl
  homes := registered.homes

theorem openScope_registered (registered : walk.Registered) (kind : ScopeKind) (name : Option String)
    (extent : Extent) (supertypes : List String) (inConstants : Bool) :
    (walk.openScope kind name extent supertypes inConstants).Registered where
  scopeId id scope found := by
    unfold openScope enter scope? at found
    dsimp only at found
    rw [Array.getElem?_push] at found
    split at found
    · rename_i last
      cases found
      exact last.symm
    · exact registered.scopeId id scope found
  declarationId := registered.declarationId
  children := by
    unfold openScope enter
    rw [Array.toList_push, List.filterMap_append, registered.children]
    exact (Register.ofEntries_concat _).symm
  symbols := registered.symbols
  named := registered.named
  homes := registered.homes

theorem assign_registered (registered : walk.Registered) (word : Nat) (scope : ScopeId) :
    (walk.assign word scope).Registered where
  scopeId := registered.scopeId
  declarationId := registered.declarationId
  children := registered.children
  symbols := registered.symbols
  named := registered.named
  homes entry member := by
    unfold assign at member
    dsimp only at member
    split at member
    · rename_i inside
      rcases List.mem_cons.mp member with here | former
      · exact ⟨word, inside, by rw [here]; rfl⟩
      · exact registered.homes entry former
    · exact registered.homes entry member

theorem Change.registered (change : Change code position limit walk after) (registered : walk.Registered) :
    after.Registered := by
  cases change with
  | assign word scope apart => exact assign_registered registered word scope
  | markTypes words => exact registered.congr rfl rfl rfl rfl rfl rfl rfl
  | markPath words within => exact registered.congr rfl rfl rfl rfl rfl rfl rfl
  | declare declaration identifier named within typed => exact declare_registered registered declaration
  | typeParameter scope parameter identifier =>
      exact (declare_registered registered _).congr rfl rfl rfl rfl rfl rfl rfl
  | openScope kind name extent supertypes inConstants named constants inherits creates =>
      exact openScope_registered registered kind name extent supertypes inConstants
  | settle _ outline frames progress => exact outline ▸ registered

theorem Changes.registered (changes : Changes code position limit walk after) (registered : walk.Registered) :
    after.Registered := by
  induction changes with
  | refl => exact registered
  | tail _ change ih => exact change.registered ih

theorem arrive_registered (registered : walk.Registered) (position : Nat) : (walk.arrive position).Registered :=
  assign_registered (registered.congr rfl rfl rfl rfl rfl rfl rfl) _ _

theorem step_registered (registered : walk.Registered) (position : Nat) :
    (walk.step code position).1.Registered := by
  have changes : Changes code position (max (position + 1) (walk.step code position).2) walk
      (walk.step code position).1 := step_changes (by omega) (by omega)
  exact changes.registered registered

theorem start_registered (layout : Layout) : (start layout).Registered where
  scopeId id scope found := by
    cases id with
    | zero =>
        cases found
        rfl
    | succ id => cases found
  declarationId id declaration impossible := by cases impossible
  children := rfl
  symbols := rfl
  named := rfl
  homes _ impossible := by cases impossible

theorem run_registered (registered : walk.Registered) : (run code walk position).Registered := by
  have stopped : ∃ _ : Nat, (run code walk position).Registered := by
    refine run_induction (fun _ walk => walk.Registered) ?_ walk position registered
    intro walk position registered changes
    exact changes.registered registered
  obtain ⟨_, kept⟩ := stopped
  exact kept

theorem run_layout : (run code walk position).layout = walk.layout := by
  have stopped : ∃ _ : Nat, (run code walk position).layout = walk.layout := by
    refine run_induction (fun _ state => state.layout = walk.layout) ?_ walk position rfl
    intro state position same changes
    exact changes.layout.trans same
  obtain ⟨_, same⟩ := stopped
  exact same

end Walk

instance Outline.ofCode_registered (code : Code) : (Outline.ofCode code).Registered :=
  Walk.run_registered (Walk.start_registered code.layout)

theorem Outline.ofCode_layout (code : Code) : (Outline.ofCode code).layout = code.layout := Walk.run_layout

instance Outline.ofCode_ordered {code : Code} [ordered : code.layout.Ordered] : (Outline.ofCode code).layout.Ordered :=
  (Outline.ofCode_layout code).symm ▸ ordered

end ScopedRename
