import Mathlib.Data.List.Forall2
import ScopedRename.Span

/-!
Sorted spans. Inserting and sorting keep the members, put them in order and drop what occurs twice. Only how the spans
compare matters: lists whose spans compare alike, pair by pair, are sorted alike.
-/

namespace ScopedRename

namespace Span

variable {span other : Span} {spans : List Span}

theorem le_total (span other : Span) : span.le other = true ∨ other.le span = true := by
  simp only [le, Bool.or_eq_true, Bool.and_eq_true, decide_eq_true_eq, beq_iff_eq]
  omega

theorem le_antisymm (left : span.le other = true) (right : other.le span = true) : span = other := by
  cases span
  cases other
  simp only [le, Bool.or_eq_true, Bool.and_eq_true, decide_eq_true_eq, beq_iff_eq, mk.injEq] at left right ⊢
  omega

theorem le_trans {third : Span} (left : span.le other = true) (right : other.le third = true) :
    span.le third = true := by
  simp only [le, Bool.or_eq_true, Bool.and_eq_true, decide_eq_true_eq, beq_iff_eq] at left right ⊢
  omega

theorem mem_insert : other ∈ insert span spans ↔ other = span ∨ other ∈ spans := by
  induction spans with
  | nil => exact List.mem_singleton.trans (or_iff_left List.not_mem_nil).symm
  | cons first rest ih =>
      unfold insert
      split
      · rename_i same
        rw [same, List.mem_cons, or_self_left]
      · split
        · exact List.mem_cons
        · rw [List.mem_cons, ih, List.mem_cons, or_left_comm]

theorem mem_sort : span ∈ sort spans ↔ span ∈ spans := by
  induction spans with
  | nil => exact Iff.rfl
  | cons first rest ih => rw [List.mem_cons, ← ih, ← mem_insert]; rfl

theorem insert_ordered (ordered : spans.Pairwise fun left right => left.le right = true ∧ left ≠ right) :
    (insert span spans).Pairwise fun left right => left.le right = true ∧ left ≠ right := by
  induction spans with
  | nil => exact List.pairwise_singleton _ _
  | cons first rest ih =>
      obtain ⟨ahead, further⟩ := List.pairwise_cons.mp ordered
      unfold insert
      split
      · exact ordered
      · rename_i different
        split
        · rename_i before
          refine List.pairwise_cons.mpr ⟨?_, ordered⟩
          intro last member
          rcases List.mem_cons.mp member with here | later
          · exact here ▸ ⟨before, different⟩
          · refine ⟨le_trans before (ahead last later).1, ?_⟩
            rintro rfl
            exact (ahead span later).2 (le_antisymm (ahead span later).1 before)
        · rename_i behind
          refine List.pairwise_cons.mpr ⟨?_, ih further⟩
          intro last member
          rcases mem_insert.mp member with here | later
          · exact here ▸ ⟨(le_total first span).resolve_right behind, Ne.symm different⟩
          · exact ahead last later

theorem sort_ordered (spans : List Span) :
    (sort spans).Pairwise fun left right => left.le right = true ∧ left ≠ right := by
  induction spans with
  | nil => exact List.Pairwise.nil
  | cons first rest ih => exact insert_ordered ih

section Alike

variable {others : List Span} {related : Span → Span → Prop}
  (agree : ∀ {span other again more}, related span again → related other more →
    ((span = other ↔ again = more) ∧ (span.le other = true ↔ again.le more = true)))

include agree

/-- Spans that compare alike find the same place. -/
theorem insert_forall₂ (first : related span other) (rest : List.Forall₂ related spans others) :
    List.Forall₂ related (insert span spans) (insert other others) := by
  induction rest with
  | nil => exact .cons first .nil
  | cons head tail ih =>
      obtain ⟨same, before⟩ := agree first head
      unfold insert
      simp only [same, before]
      split
      · exact .cons head tail
      · split
        · exact .cons first (.cons head tail)
        · exact .cons head ih

theorem sort_forall₂ (alike : List.Forall₂ related spans others) : List.Forall₂ related (sort spans) (sort others) := by
  induction alike with
  | nil => exact .nil
  | cons head _ ih => exact insert_forall₂ agree head ih

end Alike

end Span

end ScopedRename
