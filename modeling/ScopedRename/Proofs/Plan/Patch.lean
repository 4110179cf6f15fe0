import ScopedRename.Proofs.Fallible
import ScopedRename.Proofs.Plan.Exact
import ScopedRename.Proofs.Token.Lossless

/-! The patch of a rename that was carried out. Each planned span lies in the text, so the patch always exists. -/

namespace ScopedRename

theorem RenameContext.run_eq_ok {context : RenameContext} {source newName : String} {locator : Locator}
    {outcome : RenameOutcome} (ran : context.run source locator newName = .ok outcome) :
    ∃ index analysis target, Analysis.ofText source index = .ok analysis ∧
      analysis.planFor context.options target newName = .ok outcome.plan := by
  unfold run analyze plan at ran
  simp only [bind_eq_ok] at ran
  obtain ⟨analysis, ⟨_, _, analysed⟩, plan, ⟨_, _, planned⟩, text, _, same⟩ := ran
  obtain ⟨target, plannedFor⟩ := Analysis.plan_eq_ok planned
  cases same
  exact ⟨_, analysis, target, analysed, plannedFor⟩

theorem RenameContext.exists_patch {context : RenameContext} {source newName : String} {locator : Locator}
    {outcome : RenameOutcome} (ran : context.run source locator newName = .ok outcome) (file : String) :
    ∃ patch, outcome.plan.patch file source = .ok patch := by
  obtain ⟨index, analysis, target, analysed, planned⟩ := run_eq_ok ran
  obtain ⟨split, _, _, _, _, hash⟩ := Analysis.ofText_eq_ok analysed
  obtain ⟨_, _, _, _, planHash, _⟩ := Analysis.accepted planned
  have fresh : outcome.plan.checkFresh source = .ok () := by
    unfold RenamePlan.checkFresh
    rw [planHash, hash]
    exact if_pos rfl
  have edits : ∃ edits, outcome.plan.edits file source = .ok edits := by
    unfold RenamePlan.edits
    rw [fresh]
    dsimp only [bind, Except.bind]
    apply exists_mapM_ok
    intro span chosen
    obtain ⟨token, member, rfl, _, _⟩ := Analysis.spans_spelled analysed planned span chosen
    rw [(Token.ofText_covers split).slices token member]
    exact ⟨_, rfl⟩
  obtain ⟨edits, made⟩ := edits
  unfold RenamePlan.patch
  rw [made]
  exact ⟨_, rfl⟩

end ScopedRename
