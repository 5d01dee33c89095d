import TypedSettings.Report

/-!
What a report says of its walk: the walk's problems, a fault of its unit, and nothing else.
-/

namespace TypedSettings

namespace UnitReport

/-- A report is made of the root's walk and of what came of its unit. -/
theorem exists_rendering {w : World} {t : Target} {root : InterfaceDecl} {u : UnitReport}
    (h : ofRoot w t root = .ok u) :
    ∃ rendered, u = ofRendering root (Walk.ofRoot w root) rendered := by
  unfold ofRoot at h
  dsimp only at h
  split at h
  · cases h
    exact ⟨_, rfl⟩
  · split at h
    · cases h
    · cases h
      exact ⟨_, rfl⟩

theorem error_mem_ofRendering {root : InterfaceDecl} {walk : Walk}
    {rendered : Except EmitFault String} {p : Problem} :
    .error p ∈ (ofRendering root walk rendered).diagnostics ↔
      p ∈ walk.outcome.problems ∨ ∃ fault, rendered = .error fault ∧ p = .notEmitted fault := by
  unfold ofRendering
  cases rendered with
  | ok text => simp
  | error fault => simp

theorem warning_mem_ofRendering {root : InterfaceDecl} {walk : Walk}
    {rendered : Except EmitFault String} {wn : Warning} :
    .warning wn ∈ (ofRendering root walk rendered).diagnostics ↔
      wn ∈ walk.outcome.keys.warnings := by
  unfold ofRendering
  simp

/-- An error in the report leaves the unit incomplete. -/
theorem isComplete_eq_false {u : UnitReport} {p : Problem} (h : .error p ∈ u.diagnostics) :
    u.isComplete = false := by
  have herr : u.hasErrors = true := List.any_eq_true.2 ⟨.error p, h, rfl⟩
  rw [isComplete, herr]
  simp

/-- A complete report is one of a walk without problems. -/
theorem problems_eq_nil {w : World} {t : Target} {root : InterfaceDecl} {u : UnitReport}
    (h : ofRoot w t root = .ok u) (hc : u.isComplete = true) :
    (Walk.ofRoot w root).outcome.problems = [] := by
  obtain ⟨rendered, rfl⟩ := exists_rendering h
  rw [List.eq_nil_iff_forall_not_mem]
  intro p hp
  rw [isComplete_eq_false (error_mem_ofRendering.2 (.inl hp))] at hc
  cases hc

end UnitReport

end TypedSettings
