import Mathlib.Data.List.Forall2
import ScopedRename.Analysis
import ScopedRename.Proofs.Binding.Candidates
import ScopedRename.Proofs.Binding.SideBySide

/-!
The project index explains names of other files and nothing else. Two runs of the binder under different indexes find
the same receivers and the same declarations of this file; they may only differ in how a name stays unbound. Since the
planner never asks how a name stays unbound, a rename does not depend on the index at all.
-/

namespace ScopedRename

namespace Resolution

/-- Equal, or both leave the name without a declaration of this file. -/
def Agrees (left right : Resolution) : Prop :=
  left = right ∨ (left.isBound = false ∧ right.isBound = false)

theorem Agrees.refl (resolution : Resolution) : resolution.Agrees resolution := Or.inl rfl

theorem Agrees.isBound_eq {left right : Resolution} (agrees : left.Agrees right) :
    left.isBound = right.isBound := by
  rcases agrees with same | ⟨leftFree, rightFree⟩
  · rw [same]
  · rw [leftFree, rightFree]

theorem Agrees.eq_of_isBound {left right : Resolution} (agrees : left.Agrees right)
    (bound : left.isBound = true) : left = right := by
  rcases agrees with same | ⟨leftFree, _⟩
  · exact same
  · rw [leftFree] at bound
    cases bound

theorem Agrees.denoted?_eq {left right : Resolution} (agrees : left.Agrees right) :
    left.denoted? = right.denoted? := by
  rcases agrees with same | ⟨leftFree, rightFree⟩
  · rw [same]
  · rw [denoted?_of_not_isBound leftFree, denoted?_of_not_isBound rightFree]

end Resolution

namespace Outline

variable (outline : Outline) (first second : ProjectIndex)

private theorem externalMember_agrees (types : List String) (name : String) :
    (externalMember first types name).Agrees (externalMember second types name) :=
  Or.inr ⟨externalMember_isBound first types name, externalMember_isBound second types name⟩

theorem bindBareName_agrees (scope : ScopeId) (name : String) (usage : Usage) (offset : Nat) :
    (outline.bindBareName first scope name usage offset).Agrees
      (outline.bindBareName second scope name usage offset) := by
  unfold bindBareName
  split
  · exact Resolution.Agrees.refl _
  · split
    · exact Resolution.Agrees.refl _
    · split
      · exact Resolution.Agrees.refl _
      · exact externalMember_agrees first second _ name

/-- With one receiver, the member is looked up in the same place and found in the same place. -/
theorem bindMember_agrees (receiver : Receiver) (name : String) (usage : Usage) :
    (outline.bindMember first receiver name usage).1 = (outline.bindMember second receiver name usage).1 ∧
      (outline.bindMember first receiver name usage).2.Agrees
        (outline.bindMember second receiver name usage).2 := by
  cases receiver with
  | localType type =>
      simp only [bindMember]
      split
      · exact ⟨rfl, externalMember_agrees first second _ name⟩
      · exact ⟨rfl, Resolution.Agrees.refl _⟩
  | named type => exact ⟨rfl, externalMember_agrees first second _ name⟩
  | inherited types => exact ⟨rfl, externalMember_agrees first second _ name⟩
  | unknown => exact ⟨rfl, Resolution.Agrees.refl _⟩

end Outline

namespace Code

variable (code : Code) (outline : Outline) (first second : ProjectIndex)

private theorem sideBySide : SideBySide code code outline outline id where
  keyword := rfl
  punctuation := rfl
  partner := rfl
  reference := rfl
  type _ := rfl
  supertypes scope := (List.map_id (outline.supertypesOf scope)).symm
  ofName declaration := (outline.receiverOfName declaration).respell_id.symm
  ofCall declaration := (outline.receiverOfCall declaration).respell_id.symm

private theorem bindingAt_step (position : Nat)
    (earlier : ∀ word, word < position →
      code.receiverAt outline second word = code.receiverAt outline first word) :
    (code.bindingAt outline first position).1 = (code.bindingAt outline second position).1 ∧
      (code.bindingAt outline first position).2.Agrees (code.bindingAt outline second position).2 := by
  rw [bindingAt, bindingAt]
  split
  · exact ⟨rfl, Resolution.Agrees.refl _⟩
  · dsimp only
    split
    · rw [earlier (position - 2) (by omega)]
      exact outline.bindMember_agrees first second _ _ _
    · exact ⟨rfl, outline.bindBareName_agrees first second _ _ _ _⟩

private theorem bindingAt_agrees {position : Nat} (used : code.isReference outline position = true) :
    (code.bindingAt outline first position).1 = (code.bindingAt outline second position).1 ∧
      (code.bindingAt outline first position).2.Agrees (code.bindingAt outline second position).2 := by
  refine ((code.sideBySide outline).run first second
    (fun found again => found.1 = again.1 ∧ found.2.Agrees again.2) ?_ ?_ position).1 used
  · intro found again related
    exact related.2.denoted?_eq.symm
  · intro word _ earlier
    apply code.bindingAt_step
    intro before ordered
    rw [earlier before ordered, Receiver.respell_id]

end Code

namespace Reference

/-- The same use of a name, looked up in the same place, with resolutions that agree. -/
structure Agrees (left right : Reference) : Prop where
  position : left.position = right.position
  name : left.name = right.name
  scope : left.scope = right.scope
  space : left.space = right.space
  lookup : left.lookup = right.lookup
  resolution : left.resolution.Agrees right.resolution

theorem Agrees.eq_of_isBound {left right : Reference} (agrees : left.Agrees right)
    (bound : left.resolution.isBound = true) : left = right := by
  have resolution := agrees.resolution.eq_of_isBound bound
  cases left
  cases right
  simp only [mk.injEq]
  exact ⟨agrees.position, agrees.name, agrees.scope, agrees.space, agrees.lookup, resolution⟩

end Reference

namespace Code

variable (code : Code) (outline : Outline) (first second : ProjectIndex)

private theorem referenceAt?_agrees (position : Nat) :
    Option.Rel Reference.Agrees (code.referenceAt? outline first position)
      (code.referenceAt? outline second position) := by
  unfold referenceAt?
  split
  · rename_i used
    obtain ⟨lookup, resolution⟩ := code.bindingAt_agrees outline first second used
    exact Option.Rel.some ⟨rfl, rfl, rfl, rfl, lookup, resolution⟩
  · exact Option.Rel.none

/-- Binding under two indexes gives the same uses one by one. -/
theorem references_agree :
    List.Forall₂ Reference.Agrees (code.references outline first).toList
      (code.references outline second).toList := by
  unfold references
  refine List.rel_filterMap (R := Eq) (P := Reference.Agrees) ?_ (List.forall₂_same.mpr fun _ _ => rfl)
  intro position other same
  subst other
  exact code.referenceAt?_agrees outline first second position

end Code

end ScopedRename
