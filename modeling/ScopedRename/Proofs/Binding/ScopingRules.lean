import ScopedRename.Proofs.Binding.Replay
import ScopedRename.Proofs.Outline.Bodies
import ScopedRename.Proofs.Outline.WellFormed
import ScopedRename.Proofs.Plan.Hygiene

/-!
The scoping rules. They say what a use may denote without saying how it is searched for: the declarations that the
innermost scope around it shows, or the members of a type; failing values, types; narrowed by the number of arguments.
Main statement: every identifier that declares nothing is used exactly once, and every use follows the rules.
-/

namespace ScopedRename

namespace Analysis

variable (analysis : Analysis)

def startOf (position : Nat) : Nat := (analysis.layout.span position).start

def Declares (scope : ScopeId) (name : String) (space : NameSpace) (id : DeclarationId) : Prop :=
  ∃ declaration, analysis.bound.outline.declaration? id = some declaration ∧ declaration.scope = scope ∧
    declaration.name = name ∧ declaration.kind.space = space

/-- The name can be meant at a byte offset: a local variable only from its own name on. -/
def Shows (scope : ScopeId) (name : String) (space : NameSpace) (offset : Nat) (id : DeclarationId) : Prop :=
  analysis.Declares scope name space id ∧
    ∀ declaration, analysis.bound.outline.declaration? id = some declaration → declaration.kind = .localVariable →
      analysis.startOf declaration.position ≤ offset

/-- The candidates, in order, are what a name can mean where it is looked up: all that the innermost scope with such a
declaration shows, or all members of the type. -/
def Finds (site : Lookup) (name : String) (space : NameSpace) (offset : Nat) (candidates : List DeclarationId) : Prop :=
  candidates ≠ [] ∧ candidates.Pairwise (· < ·) ∧
    match site with
    | .lexical scope => ∃ nearer hit outer, analysis.bound.outline.ancestors scope = nearer ++ hit :: outer ∧
        (∀ inner ∈ nearer, ∀ id, ¬ analysis.Shows inner name space offset id) ∧
        ∀ id, id ∈ candidates ↔ analysis.Shows hit name space offset id
    | .member type => ∀ id, id ∈ candidates ↔ analysis.Declares type name space id
    | .foreign | .path => False

def Misses (site : Lookup) (name : String) (space : NameSpace) (offset : Nat) : Prop :=
  match site with
  | .lexical scope =>
    ∀ outer ∈ analysis.bound.outline.ancestors scope, ∀ id, ¬ analysis.Shows outer name space offset id
  | .member type => ∀ id, ¬ analysis.Declares type name space id
  | .foreign | .path => True

def Takes (count : Nat) (id : DeclarationId) : Prop :=
  ∃ declaration arity, analysis.bound.outline.declaration? id = some declaration ∧ declaration.arity = some arity ∧
    if arity.variadic then arity.count ≤ count + 1 else arity.count = count

inductive Narrows (arguments : Option Nat) (candidates : List DeclarationId) : Resolution → Prop where
  | single {id : DeclarationId} (alone : candidates = [id]) : Narrows arguments candidates (.resolved id)
  | uncounted (several : 2 ≤ candidates.length) (unknown : arguments = none) :
      Narrows arguments candidates (.ambiguous candidates)
  | taken {count : Nat} {id : DeclarationId} (several : 2 ≤ candidates.length) (known : arguments = some count)
      (member : id ∈ candidates) (only : ∀ other ∈ candidates, analysis.Takes count other ↔ other = id) :
      Narrows arguments candidates (.resolved id)
  | overloaded {count : Nat} {taking : List DeclarationId} (several : 2 ≤ taking.length)
      (known : arguments = some count) (ordered : taking.Sublist candidates)
      (exactly : ∀ id ∈ candidates, id ∈ taking ↔ analysis.Takes count id) :
      Narrows arguments candidates (.ambiguous taking)
  | rejected {count : Nat} (several : 2 ≤ candidates.length) (known : arguments = some count)
      (none : ∀ id ∈ candidates, ¬ analysis.Takes count id) : Narrows arguments candidates (.ambiguous candidates)

/-- What the rules say a use denotes: what its name means in its own name space, else, for a value, as a type, else
nothing of this file. -/
inductive FollowsRules (reference : Reference) : Prop where
  | direct {candidates : List DeclarationId}
      (finds : analysis.Finds reference.lookup reference.name reference.space (analysis.startOf reference.position)
        candidates)
      (narrows : analysis.Narrows (analysis.code.usageAt analysis.bound.outline reference.position).arguments candidates
        reference.resolution)
  | type {candidates : List DeclarationId} (value : reference.space = .value)
      (misses : analysis.Misses reference.lookup reference.name .value (analysis.startOf reference.position))
      (finds : analysis.Finds reference.lookup reference.name .type (analysis.startOf reference.position) candidates)
      (narrows : analysis.Narrows none candidates reference.resolution)
  | elsewhere
      (misses : analysis.Misses reference.lookup reference.name reference.space (analysis.startOf reference.position))
      (missesTypes : reference.space = .value →
        analysis.Misses reference.lookup reference.name .type (analysis.startOf reference.position))
      (unbound : reference.resolution.isBound = false)

end Analysis

/-! ### Lookups and choices -/

namespace Outline

variable (outline : Outline)

theorem isType_of_enclosingType? {scope type : ScopeId} (enclosing : outline.enclosingType? scope = some type) :
    (outline.scope? type).any (·.kind == .type) = true := by
  unfold enclosingType? at enclosing
  have passes := List.find?_some enclosing
  exact passes

variable {outline} (embodied : ∀ declaration ∈ outline.declarations, outline.Embodies declaration)

include embodied

theorem isType_of_body {id : DeclarationId} {declaration : Declaration} {type : ScopeId}
    (found : outline.declaration? id = some declaration) (kind : declaration.kind = .type)
    (receiver : declaration.body.elim Receiver.unknown .localType = .localType type) :
    (outline.scope? type).any (·.kind == .type) = true := by
  cases recorded : declaration.body with
  | none =>
      rw [recorded] at receiver
      cases receiver
  | some body =>
      rw [recorded] at receiver
      cases receiver
      obtain ⟨scope, opened, bodied, _⟩ := embodied declaration (Array.mem_of_getElem? found) type recorded
      rw [kind] at bodied
      rw [opened, Option.any_some, ← Option.some.inj bodied]
      rfl

theorem isType_of_receiverOfType [outline.Registered] {type : DeclaredType} {scope body : ScopeId}
    (receiver : outline.receiverOfType type scope = .localType body) :
    (outline.scope? body).any (·.kind == .type) = true := by
  unfold receiverOfType at receiver
  split at receiver
  · cases receiver
  · split at receiver
    · rename_i hit only looked
      obtain ⟨declaration, found, _, _, space⟩ :=
        outline.mem_declaredIn.mp (outline.mem_of_lookup looked List.mem_cons_self)
      rw [found, Option.bind_some] at receiver
      exact isType_of_body embodied found (DeclarationKind.space_eq_type.mp space) receiver
    · cases receiver
    · cases receiver

private theorem isType_of_declaredType [outline.Registered] {declaration : Declaration} {type : ScopeId}
    (receiver : declaration.declaredType.elim Receiver.unknown (outline.receiverOfType · declaration.scope) =
      .localType type) :
    (outline.scope? type).any (·.kind == .type) = true := by
  cases typed : declaration.declaredType with
  | none =>
      rw [typed] at receiver
      cases receiver
  | some written =>
      rw [typed] at receiver
      exact isType_of_receiverOfType embodied receiver

theorem isType_of_receiverOfName [outline.Registered] {id : DeclarationId} {type : ScopeId}
    (receiver : outline.receiverOfName id = .localType type) :
    (outline.scope? type).any (·.kind == .type) = true := by
  unfold receiverOfName at receiver
  split at receiver
  · cases receiver
  · rename_i declaration found
    split at receiver
    · rename_i kind
      exact isType_of_body embodied found kind receiver
    · cases receiver
    all_goals exact isType_of_declaredType embodied receiver

theorem isType_of_receiverOfCall [outline.Registered] {id : DeclarationId} {type : ScopeId}
    (receiver : outline.receiverOfCall id = .localType type) :
    (outline.scope? type).any (·.kind == .type) = true := by
  unfold receiverOfCall at receiver
  split at receiver
  · cases receiver
  · split at receiver
    · exact isType_of_declaredType embodied receiver
    · cases receiver

/-- Whatever a receiver is typed with is the body of a type. -/
theorem isType_of_receiverAt [outline.Registered] {code : Code} {index : ProjectIndex} {position : Nat} {type : ScopeId}
    (receiver : code.receiverAt outline index position = .localType type) :
    (outline.scope? type).any (·.kind == .type) = true := by
  -- only a qualified `this` goes further back, to the receiver in front of it
  induction position using Nat.strongRecOn generalizing type with
  | ind position earlier =>
      have enclosed {from? : Option ScopeId} (around : outline.enclosingType? (outline.home position) = from?)
          (receiver : from?.elim Receiver.unknown .localType = .localType type) :
          (outline.scope? type).any (·.kind == .type) = true := by
        cases from? with
        | none => cases receiver
        | some enclosing =>
            cases receiver
            exact outline.isType_of_enclosingType? around
      rw [Code.receiverAt] at receiver
      split at receiver
      · split at receiver
        · rename_i follows
          split at receiver
          · rename_i outer inner
            cases receiver
            exact earlier (position - 2) (by omega) inner
          · cases receiver
        · exact enclosed rfl receiver
      · split at receiver
        · cases around : outline.enclosingType? (outline.home position) with
          | none =>
              rw [around] at receiver
              cases receiver
          | some enclosing =>
              rw [around] at receiver
              cases receiver
        · split at receiver
          · split at receiver
            · exact isType_of_receiverOfName embodied receiver
            · cases receiver
          · split at receiver
            · split at receiver
              · split at receiver
                · split at receiver
                  · split at receiver
                    · exact isType_of_receiverOfCall embodied receiver
                    · cases receiver
                  · cases receiver
                · cases receiver
              · cases receiver
            · cases receiver

end Outline

namespace Analysis

variable {analysis : Analysis}

theorem takes_iff {count : Nat} {id : DeclarationId} :
    analysis.bound.outline.takes count id = true ↔ analysis.Takes count id := by
  unfold Outline.takes Takes Arity.accepts
  cases analysis.bound.outline.declaration? id with
  | none => simp
  | some declaration =>
      cases recorded : declaration.arity with
      | none => simp [recorded]
      | some arity =>
          cases variadic : arity.variadic with
          | true => simp [recorded, variadic]
          | false => simp [recorded, variadic]

theorem narrows_choose (arguments : Option Nat) {candidates : List DeclarationId} (nonempty : candidates ≠ []) :
    analysis.Narrows arguments candidates (analysis.bound.outline.choose candidates arguments) := by
  obtain ⟨first, rest, shape⟩ := List.exists_cons_of_ne_nil nonempty
  cases rest with
  | nil =>
      rw [shape]
      exact Narrows.single rfl
  | cons second rest =>
      have several : 2 ≤ candidates.length := by
        rw [shape, List.length_cons, List.length_cons]
        omega
      have together : analysis.bound.outline.choose candidates none = .ambiguous candidates := by
        rw [shape]
        rfl
      cases arguments with
      | none =>
          rw [together]
          exact Narrows.uncounted several rfl
      | some count =>
          have taking {id : DeclarationId} : id ∈ candidates.filter (analysis.bound.outline.takes count) ↔
              id ∈ candidates ∧ analysis.Takes count id := by
            rw [List.mem_filter, takes_iff]
          rw [Outline.choose_some, together]
          cases narrowed : candidates.filter (analysis.bound.outline.takes count) with
          | nil =>
              rw [if_pos rfl]
              refine Narrows.rejected several rfl ?_
              intro id member takes
              have impossible := taking.mpr ⟨member, takes⟩
              rw [narrowed] at impossible
              cases impossible
          | cons id others =>
              rw [if_neg (List.cons_ne_nil id others)]
              rw [narrowed] at taking
              cases others with
              | nil =>
                  refine Narrows.taken several rfl (taking.mp List.mem_cons_self).1 ?_
                  intro other member
                  rw [← List.mem_singleton, taking]
                  exact ⟨fun takes => ⟨member, takes⟩, And.right⟩
              | cons further others =>
                  refine Narrows.overloaded ?_ rfl ?_ ?_
                  · rw [List.length_cons, List.length_cons]
                    omega
                  · rw [← narrowed]
                    exact List.filter_sublist
                  · intro other member
                    rw [taking]
                    exact ⟨And.right, fun takes => ⟨member, takes⟩⟩

variable {source : String} {index : ProjectIndex} (analysed : ofText source index = .ok analysis)

include analysed

/-- The declarations visible at an offset are the ones that can be meant there. -/
theorem mem_visibleIn_iff {scope : ScopeId} {name : String} {space : NameSpace} {offset : Nat} {id : DeclarationId} :
    id ∈ analysis.bound.outline.visibleIn scope name space (some offset) ↔
      analysis.Shows scope name space offset id := by
  have := Analysis.registered analysed
  rw [Outline.mem_visibleIn]
  refine and_congr_right ?_
  rintro ⟨declaration, found, _⟩
  unfold Outline.isVisible
  rw [found]
  simp only [Option.any_some, Bool.or_eq_true, bne_iff_ne, decide_eq_true_eq, Option.some.injEq, forall_eq']
  rw [Analysis.startOf_eq analysed, ne_eq, ← imp_iff_not_or]
  rfl

theorem finds_of_lookup {scope hit : ScopeId} {name : String} {space : NameSpace} {offset : Nat}
    {candidates : List DeclarationId}
    (looked : analysis.bound.outline.lookup scope name space (some offset) = some (hit, candidates)) :
    analysis.Finds (.lexical scope) name space offset candidates := by
  have := Analysis.registered analysed
  obtain ⟨nearer, outer, split, missed, shown, nonempty⟩ := analysis.bound.outline.lookup_eq_some_iff.mp looked
  refine ⟨nonempty, ?_, nearer, hit, outer, split, ?_, ?_⟩
  · rw [← shown]
    exact (analysis.bound.outline.declaredIn_pairwise hit name space).filter _
  · intro inner member id shows
    rw [← mem_visibleIn_iff analysed, missed inner member] at shows
    cases shows
  · intro id
    rw [← mem_visibleIn_iff analysed, shown]

theorem misses_of_lookup {scope : ScopeId} {name : String} {space : NameSpace} {offset : Nat}
    (looked : analysis.bound.outline.lookup scope name space (some offset) = none) :
    analysis.Misses (.lexical scope) name space offset := by
  intro outer member id shows
  rw [← mem_visibleIn_iff analysed, analysis.bound.outline.lookup_eq_none_iff.mp looked outer member] at shows
  cases shows

theorem finds_of_declaredIn {type : ScopeId} {name : String} {space : NameSpace} {offset : Nat}
    (nonempty : analysis.bound.outline.declaredIn type name space ≠ []) :
    analysis.Finds (.member type) name space offset (analysis.bound.outline.declaredIn type name space) :=
  have := Analysis.registered analysed
  ⟨nonempty, analysis.bound.outline.declaredIn_pairwise type name space,
    fun _ => analysis.bound.outline.mem_declaredIn⟩

theorem misses_of_declaredIn {type : ScopeId} {name : String} {space : NameSpace} {offset : Nat}
    (none : analysis.bound.outline.declaredIn type name space = []) :
    analysis.Misses (.member type) name space offset := by
  have := Analysis.registered analysed
  intro id declares
  have member := analysis.bound.outline.mem_declaredIn.mpr declares
  rw [none] at member
  cases member

/-! ### Uses -/

variable {reference : Reference} {usage : Usage}
  (asked : analysis.code.usageAt analysis.bound.outline reference.position = usage)
  (space : reference.space = usage.space)

include asked space

theorem bareName_follows {scope : ScopeId}
    (site : reference.lookup = .lexical scope)
    (denotes : reference.resolution =
      analysis.bound.outline.bindBareName index scope reference.name usage (analysis.startOf reference.position)) :
    analysis.FollowsRules reference := by
  unfold Outline.bindBareName at denotes
  cases looked : analysis.bound.outline.lookup scope reference.name usage.space
      (some (analysis.startOf reference.position)) with
  | some result =>
      obtain ⟨hit, candidates⟩ := result
      rw [looked] at denotes
      have finds := finds_of_lookup analysed looked
      rw [← site, ← space] at finds
      refine FollowsRules.direct finds ?_
      rw [asked, denotes]
      exact narrows_choose _ finds.1
  | none =>
      have misses := misses_of_lookup analysed looked
      rw [← site, ← space] at misses
      rw [looked] at denotes
      dsimp only at denotes
      by_cases value : usage.space = .value
      · rw [if_pos value] at denotes
        cases asType : analysis.bound.outline.lookup scope reference.name .type
            (some (analysis.startOf reference.position)) with
        | some result =>
            obtain ⟨hit, candidates⟩ := result
            rw [asType] at denotes
            have finds := finds_of_lookup analysed asType
            rw [← site] at finds
            refine FollowsRules.type (space.trans value) (value ▸ space ▸ misses) finds ?_
            rw [denotes]
            exact narrows_choose _ finds.1
        | none =>
            rw [asType] at denotes
            have missesTypes := misses_of_lookup analysed asType
            rw [← site] at missesTypes
            refine FollowsRules.elsewhere misses (fun _ => missesTypes) ?_
            dsimp only at denotes
            rw [denotes, if_neg (by rw [value]; decide)]
            exact Outline.externalMember_isBound index _ _
      · rw [if_neg value] at denotes
        refine FollowsRules.elsewhere misses (fun same => absurd (space.symm.trans same) value) ?_
        rw [denotes]
        dsimp only
        split
        · rfl
        · exact Outline.externalMember_isBound index _ _

omit analysed asked space in
/-- Where no declaration of this file is looked up, none is found. -/
private theorem nowhere_follows (nowhere : ∀ name space offset, analysis.Misses reference.lookup name space offset)
    (unbound : reference.resolution.isBound = false) : analysis.FollowsRules reference :=
  FollowsRules.elsewhere (nowhere _ _ _) (fun _ => nowhere _ _ _) unbound

/-- A member of a type of this file is looked up among values first, and among types if there is none. -/
private theorem ownMember_follows {type : ScopeId} (site : reference.lookup = .member type)
    (denotes : reference.resolution =
      if analysis.bound.outline.members type reference.name usage.space = [] then
        Outline.externalMember index (analysis.bound.outline.supertypesOf type) reference.name
      else
        analysis.bound.outline.choose (analysis.bound.outline.members type reference.name usage.space)
          usage.arguments) :
    analysis.FollowsRules reference := by
  have := Analysis.registered analysed
  unfold Outline.members at denotes
  cases own : analysis.bound.outline.declaredIn type reference.name usage.space with
  | cons first rest =>
      have finds : analysis.Finds (.member type) reference.name usage.space
          (analysis.startOf reference.position) _ := finds_of_declaredIn analysed (own ▸ List.cons_ne_nil first rest)
      rw [own, ← site, ← space] at finds
      rw [own] at denotes
      refine FollowsRules.direct finds ?_
      rw [asked, denotes]
      exact narrows_choose _ finds.1
  | nil =>
      have misses : analysis.Misses (.member type) reference.name usage.space
          (analysis.startOf reference.position) := misses_of_declaredIn analysed own
      rw [← site, ← space] at misses
      rw [own] at denotes
      dsimp only at denotes
      by_cases value : usage.space = .value
      · rw [if_pos value] at denotes
        cases types : analysis.bound.outline.declaredIn type reference.name .type with
        | cons first rest =>
            have finds : analysis.Finds (.member type) reference.name .type
                (analysis.startOf reference.position) _ :=
                  finds_of_declaredIn analysed (types ▸ List.cons_ne_nil first rest)
            rw [types, ← site] at finds
            rw [types] at denotes
            have uncounted : usage.arguments = none := by
              have plain := analysis.code.usageAt_eq analysis.bound.outline reference.position
                (by rw [asked, value]; decide)
              rw [asked] at plain
              rw [plain]
            refine FollowsRules.type (space.trans value) (value ▸ space ▸ misses) finds ?_
            rw [denotes, uncounted]
            exact narrows_choose _ finds.1
        | nil =>
            rw [types] at denotes
            have missesTypes : analysis.Misses (.member type) reference.name .type
                (analysis.startOf reference.position) := misses_of_declaredIn analysed types
            rw [← site] at missesTypes
            refine FollowsRules.elsewhere misses (fun _ => missesTypes) ?_
            rw [denotes]
            exact Outline.externalMember_isBound index _ _
      · rw [if_neg value] at denotes
        refine FollowsRules.elsewhere misses (fun same => absurd (space.symm.trans same) value) ?_
        rw [denotes]
        exact Outline.externalMember_isBound index _ _

theorem member_follows {receiver : Receiver}
    (site : reference.lookup = (analysis.bound.outline.bindMember index receiver reference.name usage).1)
    (denotes : reference.resolution = (analysis.bound.outline.bindMember index receiver reference.name usage).2) :
    analysis.FollowsRules reference := by
  have foreign (site : reference.lookup = .foreign) : ∀ name space offset,
      analysis.Misses reference.lookup name space offset := by
    intro name space offset
    rw [site]
    trivial
  cases receiver with
  | localType type =>
      rw [Outline.bindMember_localType] at site denotes
      exact ownMember_follows analysed asked space site denotes
  | named type =>
      apply nowhere_follows (foreign site)
      rw [denotes]
      exact Outline.externalMember_isBound index _ _
  | inherited types =>
      apply nowhere_follows (foreign site)
      rw [denotes]
      exact Outline.externalMember_isBound index _ _
  | unknown =>
      apply nowhere_follows (foreign site)
      rw [denotes]
      rfl

omit asked space in
/-- Every use follows the rules: a word of a path denotes nothing, a qualified name is a member of what its receiver
is typed with, and any other name is looked up from the scope it stands in. -/
theorem reference_follows (used : reference ∈ analysis.bound.references.toList) :
    analysis.FollowsRules reference ∧
      (analysis.bound.outline.isPathWord reference.position = true →
        reference.lookup = .path ∧ reference.resolution = .unresolved) ∧
      (∀ scope, reference.lookup = .lexical scope → scope = analysis.bound.outline.home reference.position) ∧
      ∀ type, reference.lookup = .member type →
        (analysis.bound.outline.scope? type).any (·.kind == .type) = true := by
  have word := (reference_spelled analysed used).1
  have := Analysis.registered analysed
  obtain ⟨_, _, _, _, bound, _⟩ := ofText_eq_ok analysed
  have embodied : ∀ declaration ∈ analysis.bound.outline.declarations,
      analysis.bound.outline.Embodies declaration := by
    rw [bound]
    exact Outline.ofCode_embodies analysis.code
  have found : analysis.code.referenceAt? analysis.bound.outline index reference.position = some reference := by
    rw [bound] at used ⊢
    exact (analysis.code.mem_references _ index).mp used
  obtain ⟨_, same⟩ := (analysis.code.referenceAt?_eq_some _ index).mp found
  have named : reference.name = analysis.code.text reference.position := congrArg Reference.name same
  have space := congrArg Reference.space same
  have site := congrArg Reference.lookup same
  have denotes := congrArg Reference.resolution same
  dsimp only at space site denotes
  rw [Code.bindingAt] at site denotes
  by_cases path : analysis.bound.outline.isPathWord reference.position = true
  · rw [if_pos path] at site denotes
    refine ⟨nowhere_follows ?_ (by rw [denotes]; rfl), fun _ => ⟨site, denotes⟩, ?_, ?_⟩
    · intro name space offset
      rw [site]
      trivial
    · intro scope impossible
      rw [site] at impossible
      cases impossible
    · intro type impossible
      rw [site] at impossible
      cases impossible
  · rw [if_neg path] at site denotes
    dsimp only at site denotes
    by_cases qualified : 2 ≤ reference.position ∧ analysis.code.isQualified reference.position = true
    · rw [dif_pos qualified, ← named] at site denotes
      -- a place in this file is a type, that of the receiver
      have place (isLocal : reference.lookup.isLocal = true) := by
        rw [site] at isLocal
        exact analysis.bound.outline.bindMember_isLocal index isLocal
      refine ⟨member_follows analysed rfl space site denotes, fun marked => absurd marked path, ?_, ?_⟩
      · intro scope impossible
        obtain ⟨_, _, owner⟩ := place (by rw [impossible]; rfl)
        rw [impossible, owner] at site
        cases site
      · intro type member
        obtain ⟨_, receiver, owner⟩ := place (by rw [member]; rfl)
        rw [member, owner] at site
        cases site
        exact Outline.isType_of_receiverAt embodied receiver
    · rw [dif_neg qualified, ← named] at site denotes
      rw [Analysis.startOf_eq analysed] at denotes
      refine ⟨bareName_follows analysed rfl space site denotes, fun marked => absurd marked path, ?_, ?_⟩
      · intro scope place
        rw [site] at place
        cases place
        rfl
      · intro type impossible
        rw [site] at impossible
        cases impossible

omit analysed asked space in
theorem Narrows.several {arguments : Option Nat} {candidates chosen : List DeclarationId} {resolution : Resolution}
    (narrows : analysis.Narrows arguments candidates resolution) (ordered : candidates.Pairwise (· < ·))
    (ambiguous : resolution = .ambiguous chosen) : 2 ≤ chosen.length ∧ chosen.Nodup := by
  have distinct : candidates.Nodup := ordered.imp Nat.ne_of_lt
  cases narrows with
  | single alone => cases ambiguous
  | uncounted several unknown =>
      cases ambiguous
      exact ⟨several, distinct⟩
  | taken several known member only => cases ambiguous
  | overloaded several known among exactly =>
      cases ambiguous
      exact ⟨several, distinct.sublist among⟩
  | rejected several known none =>
      cases ambiguous
      exact ⟨several, distinct⟩

omit analysed asked space in
theorem FollowsRules.several (follows : analysis.FollowsRules reference) {candidates : List DeclarationId}
    (ambiguous : reference.resolution = .ambiguous candidates) : 2 ≤ candidates.length ∧ candidates.Nodup := by
  cases follows with
  | direct finds narrows => exact narrows.several finds.2.1 ambiguous
  | type value misses finds narrows => exact narrows.several finds.2.1 ambiguous
  | elsewhere misses missesTypes unbound =>
      rw [ambiguous] at unbound
      cases unbound

omit asked space in
/-- An identifier that declares nothing is a use, and only one. -/
theorem exists_unique_reference {token : Token} (member : token ∈ analysis.tokens)
    (identifier : token.isIdentifier = true)
    (undeclared : ∀ declaration ∈ analysis.bound.outline.declarations,
      analysis.layout.span declaration.position ≠ token.span) :
    ∃! reference, reference ∈ analysis.bound.references.toList ∧
      analysis.layout.span reference.position = token.span ∧ reference.name = token.text := by
  obtain ⟨_, built, _, layout, bound, _⟩ := ofText_eq_ok analysed
  have significant : token ∈ Token.significant analysis.tokens := by
    refine List.mem_filter.mpr ⟨member, ?_⟩
    rw [beq_iff_eq.mp identifier]
    rfl
  obtain ⟨position, placed⟩ := List.mem_iff_getElem?.mp significant
  rw [← Layout.token?_ofTokens, ← layout] at placed
  have spelled := Code.word?_ofTokens built position
  rw [← layout, placed] at spelled
  have word : analysis.code.isIdentifier position = true := by
    unfold Code.isIdentifier
    rw [spelled]
    exact identifier
  have span : analysis.layout.span position = token.span := by
    rw [layout] at placed ⊢
    exact Layout.span_of_token? placed
  have free : analysis.bound.outline.declarationAt? position = none := by
    have := Analysis.registered analysed
    rw [Outline.declarationAt?_eq, List.find?_eq_none]
    intro id _ declared
    obtain ⟨declaration, found, here⟩ := (Option.any_eq_true _ _).mp declared
    apply undeclared declaration (Array.mem_of_getElem? found)
    rw [beq_iff_eq.mp here, span]
  have isReference : analysis.code.isReference analysis.bound.outline position = true := by
    unfold Code.isReference
    rw [word, free]
    rfl
  obtain ⟨reference, used, here, named⟩ : ∃ reference,
      analysis.code.referenceAt? analysis.bound.outline index position = some reference ∧
        reference.position = position ∧ reference.name = analysis.code.text position :=
    ⟨_, (analysis.code.referenceAt?_eq_some analysis.bound.outline index).mpr ⟨isReference, rfl⟩, rfl, rfl⟩
  refine ⟨reference, ⟨?_, by rw [here, span], ?_⟩, ?_⟩
  · rw [bound] at used ⊢
    exact (analysis.code.mem_references _ index).mpr (here.symm ▸ used)
  · rw [named]
    unfold Code.text
    rw [spelled]
    rfl
  · rintro other ⟨otherUsed, otherSpan, _⟩
    have same : other.position = position :=
      position_eq_of_span_eq analysed (reference_spelled analysed otherUsed).1 word (otherSpan.trans span.symm)
    rw [bound] at otherUsed used
    have otherAt := (analysis.code.mem_references _ index).mp otherUsed
    rw [same] at otherAt
    exact Option.some.inj (otherAt.symm.trans used)

end Analysis

/-- Uses are found and bound by the scoping rules. Each identifier that declares nothing is used exactly once; uses
stand in order; each follows the rules, a bare name from the scope its token belongs to and a member in the body of a
type, while the words of package and import paths denote nothing; and an ambiguous use has several candidates, all
different. -/
theorem uses_follow_rules {source : String} {index : ProjectIndex} {analysis : Analysis}
    (analysed : Analysis.ofText source index = .ok analysis) :
    (∀ token ∈ analysis.tokens, token.isIdentifier = true →
      (∀ declaration ∈ analysis.bound.outline.declarations,
        analysis.layout.span declaration.position ≠ token.span) →
      ∃! reference, reference ∈ analysis.bound.references.toList ∧
        analysis.layout.span reference.position = token.span ∧ reference.name = token.text) ∧
    analysis.bound.references.toList.Pairwise (fun left right =>
      analysis.startOf left.position < analysis.startOf right.position) ∧
    ∀ reference ∈ analysis.bound.references.toList,
      analysis.FollowsRules reference ∧
      (analysis.bound.outline.isPathWord reference.position = true →
        reference.lookup = .path ∧ reference.resolution = .unresolved) ∧
      (∀ scope, reference.lookup = .lexical scope →
        analysis.bound.outline.scopesOfTokens[analysis.layout.tokenIndex reference.position]? = some scope) ∧
      (∀ type, reference.lookup = .member type →
        (analysis.bound.outline.scope? type).any (·.kind == .type) = true) ∧
      ∀ candidates, reference.resolution = .ambiguous candidates → 2 ≤ candidates.length ∧ candidates.Nodup := by
  obtain ⟨_, _, _, _, bound, _⟩ := Analysis.ofText_eq_ok analysed
  have := Analysis.layout_ordered analysed
  refine ⟨fun token => Analysis.exists_unique_reference analysed, ?_, ?_⟩
  · refine (Analysis.references_ordered analysed).imp ?_
    intro left right before
    exact Layout.start_lt_start.mpr before
  · intro reference used
    obtain ⟨follows, path, site, type⟩ := Analysis.reference_follows analysed used
    refine ⟨follows, path, ?_, type, fun candidates => follows.several⟩
    intro scope place
    have word := (Analysis.reference_spelled analysed used).1
    rw [site scope place, bound]
    exact Outline.getElem?_scopesOfTokens_ofCode (analysis.code.isIdentifier_lt_size word)

/-- A local variable that hides a field from its own name on, two overloads, and a member. -/
theorem uses_follow_rules_class :
    ∃ analysis,
      Analysis.ofText "class A { int x; void f(A a) { x = 1; int x; f(x); f(); a.x = x; } void f() { } }"
        ProjectIndex.empty = .ok analysis ∧
      analysis.bound.references.toList.map (fun reference => (reference.name, reference.resolution)) =
        [("A", .resolved 0), ("x", .resolved 1), ("f", .resolved 2), ("x", .resolved 4), ("f", .resolved 5),
          ("a", .resolved 3), ("x", .resolved 1), ("x", .resolved 4)] ∧
      ∀ reference ∈ analysis.bound.references.toList, analysis.FollowsRules reference := by
  have computed :
      ((Analysis.ofText "class A { int x; void f(A a) { x = 1; int x; f(x); f(); a.x = x; } void f() { } }"
          ProjectIndex.empty).toOption.any fun analysis =>
        analysis.bound.references.toList.map (fun reference => (reference.name, reference.resolution)) ==
          [("A", .resolved 0), ("x", .resolved 1), ("f", .resolved 2), ("x", .resolved 4), ("f", .resolved 5),
            ("a", .resolved 3), ("x", .resolved 1), ("x", .resolved 4)]) = true := by
    decide +kernel
  obtain ⟨analysis, analysed, resolved⟩ := exists_ok_of_any computed
  refine ⟨analysis, analysed, beq_iff_eq.mp resolved, ?_⟩
  intro reference used
  exact ((uses_follow_rules analysed).2.2 reference used).1

end ScopedRename
