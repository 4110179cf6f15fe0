import ScopedRename.Proofs.Plan.TypesAsValues

/-!
The nearest scope with a name. Methods and types can be seen from everywhere in their scope, so what such a name leads
to depends on the scopes around its place alone: it is all that the nearest one with the name has under it.
-/

namespace ScopedRename.Outline

variable {outline : Outline}

/-- Only local variables come into sight. -/
theorem visibleIn_of_ne_value [outline.Registered] {space : NameSpace} (steady : space ≠ .value) (scope : ScopeId)
    (name : String)
    (offset : Option Nat) : outline.visibleIn scope name space offset = outline.declaredIn scope name space := by
  unfold visibleIn
  apply List.filter_eq_self.mpr
  intro id member
  obtain ⟨declaration, declared, _, _, kind⟩ := outline.mem_declaredIn.mp member
  have noVariable : declaration.kind ≠ .localVariable := by
    intro isLocal
    rw [isLocal] at kind
    exact steady kind.symm
  unfold isVisible
  cases offset with
  | none => rfl
  | some offset =>
      dsimp only
      rw [declared, Option.any_some, bne_iff_ne.mpr noVariable]
      rfl

theorem lookup_of_nearest {scope outer : ScopeId} {name : String} {space : NameSpace} {offset : Option Nat}
    (around : outer ∈ outline.ancestors scope)
    (missed : ∀ between ∈ outline.ancestors scope, outer < between → outline.visibleIn between name space offset = [])
    (shown : outline.visibleIn outer name space offset ≠ []) :
    outline.lookup scope name space offset = some (outer, outline.visibleIn outer name space offset) := by
  obtain ⟨inner, further, split⟩ := List.append_of_mem around
  have ordered := outline.ancestors_pairwise scope
  rw [split] at ordered
  rw [lookup_eq_some_iff]
  refine ⟨inner, further, split, ?_, rfl, shown⟩
  intro between member
  have inside : outer < between := (List.pairwise_append.mp ordered).2.2 between member _ List.mem_cons_self
  exact missed between (split ▸ List.mem_append_left _ member) inside

def Nearest (outline : Outline) (site : Lookup) (outer : ScopeId) (name : String) (space : NameSpace) : Prop :=
  match site with
  | .lexical scope =>
      outer ∈ outline.ancestors scope ∧
        ∀ between ∈ outline.ancestors scope, outer < between → outline.declaredIn between name space = []
  | .member type => type = outer
  | .foreign | .path => False

section Steady

variable {site : Lookup} {outer : ScopeId} {name : String} {space : NameSpace} {offset : Nat}
  (steady : space ≠ .value)

include steady

theorem nearest_of_mem_found [outline.Registered] {id : DeclarationId} {declaration : Declaration}
    (hit : id ∈ outline.found site name space offset) (declared : outline.declaration? id = some declaration) :
    outline.Nearest site declaration.scope name space := by
  have placed {scope : ScopeId} (member : id ∈ outline.declaredIn scope name space) : declaration.scope = scope := by
    obtain ⟨again, declaredAgain, same, _⟩ := outline.mem_declaredIn.mp member
    rw [declared] at declaredAgain
    cases declaredAgain
    exact same
  cases site with
  | foreign => cases hit
  | path => cases hit
  | member type => exact (placed hit).symm
  | lexical scope =>
      simp only [found] at hit
      cases looked : outline.lookup scope name space (some offset) with
      | none =>
          rw [looked] at hit
          cases hit
      | some result =>
          obtain ⟨stop, candidates⟩ := result
          rw [looked] at hit
          rw [placed (outline.mem_of_lookup looked hit)]
          refine ⟨outline.mem_ancestors_of_lookup looked, ?_⟩
          intro between member inside
          by_contra shown
          rw [← visibleIn_of_ne_value steady between name (some offset)] at shown
          exact absurd (outline.le_of_lookup looked member shown) (Nat.not_le.mpr inside)

/-- A name leads to what the nearest scope has under it. -/
theorem Nearest.found [outline.Registered] (nearest : outline.Nearest site outer name space)
    (shown : outline.declaredIn outer name space ≠ []) :
    outline.found site name space offset = outline.declaredIn outer name space := by
  cases site with
  | foreign => cases nearest
  | path => cases nearest
  | member type =>
      have same : type = outer := nearest
      rw [same]
      rfl
  | lexical scope =>
      obtain ⟨around, missed⟩ := nearest
      have looked : outline.lookup scope name space (some offset) =
          some (outer, outline.visibleIn outer name space (some offset)) := by
        refine lookup_of_nearest around ?_ ?_
        · intro between member inside
          rw [visibleIn_of_ne_value steady]
          exact missed between member inside
        · rw [visibleIn_of_ne_value steady]
          exact shown
      simp only [Outline.found, looked, Option.elim_some, visibleIn_of_ne_value steady]

/-- A name leads to one declaration, which its scope has under no other, exactly if that scope is the nearest. -/
theorem found_eq_singleton_iff [outline.Registered] {id : DeclarationId} {declaration : Declaration}
    (declared : outline.declaration? id = some declaration)
    (alone : outline.declaredIn declaration.scope name space = [id]) :
    outline.found site name space offset = [id] ↔ outline.Nearest site declaration.scope name space := by
  constructor
  · intro found
    exact nearest_of_mem_found steady (found ▸ List.mem_cons_self) declared
  · intro nearest
    rw [nearest.found steady (alone ▸ List.cons_ne_nil _ _), alone]

end Steady

end ScopedRename.Outline
