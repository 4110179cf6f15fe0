import Mathlib.Data.List.Basic
import ScopedRename.Outline.Build
import ScopedRename.Proofs.Token.Layout

/-!
What a walk keeps by token, read by word: the scope a word is assigned to, and the marks on words that name types and on
words of paths. Marks are set on identifiers only, and setting marks never clears one.
-/

namespace ScopedRename

namespace Outline

def NamesType (outline : Outline) (word : Nat) : Prop :=
  outline.isTypeWord word = true ∨
    ∃ declaration ∈ outline.declarations, declaration.kind = .type ∧ declaration.position = word

theorem homeAt?_congr {left right : Outline} (layout : left.layout = right.layout) (homes : left.homes = right.homes)
    (word : Nat) : left.homeAt? word = right.homeAt? word := by
  unfold homeAt?
  rw [layout, homes]

end Outline

namespace Walk

variable (code : Code) (walk : Walk)

theorem homeAt?_assign (position : Nat) (scope : ScopeId) (word : Nat) :
    (walk.assign position scope).homeAt? word =
      if position = word ∧ word < walk.layout.size then some scope else walk.homeAt? word := by
  unfold Outline.homeAt? assign
  dsimp only
  by_cases inside : position < walk.layout.size
  · rw [if_pos inside, List.lookup_cons]
    by_cases same : position = word
    · subst same
      rw [if_pos ⟨rfl, inside⟩, beq_self_eq_true]
    · rw [if_neg (same ·.1), beq_false_of_ne (Layout.tokenIndex_inj.not.mpr (Ne.symm same))]
  · rw [if_neg inside, if_neg]
    rintro ⟨rfl, within⟩
    exact inside within

theorem homeAt?_arrive (position word : Nat) :
    (walk.arrive position).homeAt? word =
      if position = word ∧ word < walk.layout.size then some (walk.arrive position).frame.scope
      else walk.homeAt? word :=
  homeAt?_assign _ _ _ _

private theorem contains_map_append (positions indices : List Nat) (word : Nat) :
    (positions.map walk.layout.tokenIndex ++ indices).contains (walk.layout.tokenIndex word) = true ↔
      indices.contains (walk.layout.tokenIndex word) = true ∨ word ∈ positions := by
  rw [List.contains_iff_mem, List.contains_iff_mem, List.mem_append, or_comm,
    List.mem_map_of_injective Layout.tokenIndex_strictMono.injective]

theorem isTypeWord_markTypes (positions : List Nat) (word : Nat) :
    (walk.markTypes code positions).isTypeWord word = true ↔
      walk.isTypeWord word = true ∨ (word ∈ positions ∧ code.isIdentifier word = true) := by
  rw [← List.mem_filter]
  exact walk.contains_map_append _ _ _

theorem isTypeWord_unmarkType (position word : Nat) (other : position ≠ word) :
    (walk.unmarkType position).isTypeWord word = walk.isTypeWord word := by
  have kept : (walk.layout.tokenIndex word != walk.layout.tokenIndex position) = true :=
    bne_iff_ne.mpr (Layout.tokenIndex_inj.not.mpr (Ne.symm other))
  unfold Outline.isTypeWord unmarkType
  rw [Bool.eq_iff_iff, List.contains_iff_mem, List.contains_iff_mem, List.mem_filter]
  exact ⟨And.left, fun listed => ⟨listed, kept⟩⟩

theorem isTypeWord_unmarkType_self (position : Nat) : (walk.unmarkType position).isTypeWord position = false := by
  unfold Outline.isTypeWord unmarkType
  rw [Bool.eq_false_iff, Ne, List.contains_iff_mem, List.mem_filter]
  rintro ⟨_, kept⟩
  rw [bne_self_eq_false] at kept
  cases kept

end Walk

end ScopedRename
