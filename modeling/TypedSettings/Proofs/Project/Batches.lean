import TypedSettings.CommandLine
import TypedSettings.Proofs.Project.Isolation
import TypedSettings.Proofs.Project.Writing

/-!
What the reports of a batch say together. A report is consistent (`UnitReport.Consistent`) when its
errors stand before its warnings and it is complete just when it has no error; it is so when it is
made, and stays so when its unit is written or cannot be. The disk is any that keeps a state, so
each of its operations may fail at any time.

* `Consistent.noteWriting`: noting what came of writing keeps a report consistent.
* `Consistent.write`: a unit is written just when it is complete in the end.
* `CommandLine.exit_eq_zero_iff`: when the command line ends in success.
* `batch_consistent`: all of it, for every batch.
-/

namespace TypedSettings

namespace UnitReport

/-! ## Consistent reports -/

structure Consistent (u : UnitReport) : Prop where
  /-- no warning stands before an error -/
  errors_first : u.diagnostics.Pairwise fun d e => e.isError = true → d.isError = true
  complete_iff : u.isComplete = true ↔ ∀ d ∈ u.diagnostics, d.isError = false
  /-- where there is no unit, an error says why -/
  of_missing : u.source = none → ∃ d ∈ u.diagnostics, d.isError = true

theorem hasErrors_eq_false_iff {u : UnitReport} :
    u.hasErrors = false ↔ ∀ d ∈ u.diagnostics, d.isError = false := by
  simp [hasErrors, List.any_eq_false]

/-- A report is consistent if its errors come first and it has an error or a unit. -/
theorem consistent_of {u : UnitReport}
    (hfirst : u.diagnostics.Pairwise fun d e => e.isError = true → d.isError = true)
    (hmissing : u.source = none → ∃ d ∈ u.diagnostics, d.isError = true) : Consistent u := by
  refine ⟨hfirst, ?_, hmissing⟩
  rw [← hasErrors_eq_false_iff, isComplete, Bool.and_eq_true, Bool.not_eq_true']
  refine and_iff_right_of_imp fun hnone => ?_
  rw [← Option.ne_none_iff_isSome]
  intro hsource
  obtain ⟨d, hd, herror⟩ := hmissing hsource
  rw [hasErrors_eq_false_iff.1 hnone d hd] at herror
  cases herror

theorem consistent_ofRendering (root : InterfaceDecl) (walk : Walk)
    (rendered : Except EmitFault String) : Consistent (ofRendering root walk rendered) := by
  refine consistent_of ?_ ?_
  · unfold ofRendering
    dsimp only
    refine List.pairwise_append.2 ⟨?_, ?_, ?_⟩
    · exact List.pairwise_map.2 (List.pairwise_of_forall fun _ _ _ => rfl)
    · refine List.pairwise_map.2 (List.pairwise_of_forall fun _ _ h => ?_)
      cases h
    · rintro d hd e - -
      obtain ⟨p, -, rfl⟩ := List.mem_map.1 hd
      rfl
  · intro hsource
    cases rendered with
    | ok text => cases hsource
    | error fault => exact ⟨_, error_mem_ofRendering.2 (.inr ⟨fault, rfl, rfl⟩), rfl⟩

/-- What came of writing a unit leaves its report consistent: a failure is one more error, in
front. -/
theorem Consistent.noteWriting {u : UnitReport} (h : Consistent u) (path : FilePath)
    (result : Except FilePath Unit) : Consistent (u.noteWriting path result) := by
  cases result with
  | ok done => exact ⟨h.errors_first, h.complete_iff, h.of_missing⟩
  | error at' =>
    refine consistent_of ?_ ?_
    · exact List.pairwise_cons.2 ⟨fun _ _ _ => rfl, h.errors_first⟩
    · exact fun _ => ⟨_, List.mem_cons_self, rfl⟩

/-! ## Writing -/

/-- The report is consistent, and the unit was written just when the report is complete. -/
structure Settled (u : UnitReport) : Prop where
  consistent : Consistent u
  written_iff : u.written.isSome = true ↔ u.isComplete = true

/-- A unit that is written, or not, is settled by that. -/
theorem Consistent.write {σ : Type} (disk : Disk (StateM σ)) (output : FilePath) {u : UnitReport}
    (h : Consistent u) (hfresh : u.written = none) (s : σ) :
    Settled (u.write disk output s).1 := by
  cases hcomplete : u.isComplete with
  | false =>
    rw [write_eq_self hcomplete]
    refine ⟨h, ?_⟩
    rw [hfresh, hcomplete]
    simp
  | true =>
    obtain ⟨text, hsource⟩ : ∃ text, u.source = some text := by
      rw [isComplete, Bool.and_eq_true] at hcomplete
      exact Option.isSome_iff_exists.1 hcomplete.1
    rw [write_eq_replace hcomplete hsource]
    refine ⟨h.noteWriting _ _, ?_⟩
    cases (disk.replace (output.join u.file) text s).1 with
    | ok done => exact iff_of_true rfl hcomplete
    | error at' =>
      have hfailed : (u.noteWriting (output.join u.file) (.error at')).isComplete = false :=
        isComplete_eq_false List.mem_cons_self
      refine iff_of_false ?_ ?_
      · rw [show (u.noteWriting _ (.error at')).written = u.written from rfl, hfresh]
        exact Bool.false_ne_true
      · rw [hfailed]
        exact Bool.false_ne_true

theorem consistent_ofRoot {w : World} {t : Target} {root : InterfaceDecl} {u : UnitReport}
    (h : ofRoot w t root = .ok u) : Consistent u := by
  obtain ⟨rendered, rfl⟩ := exists_rendering h
  exact consistent_ofRendering _ _ _

end UnitReport

/-! ## Batches -/

namespace Project

open UnitReport

variable {σ : Type} (disk : Disk (StateM σ))

/-- Writing units one after the other settles each. -/
theorem writeRoots_settled (p : Project) {roots : List InterfaceDecl} {s : σ}
    {units : List UnitReport} (h : (writeRoots disk p roots s).1 = .ok units) :
    ∀ u ∈ units, Settled u := by
  refine writeRoots_induct p (motive := fun _ _ units _ => ∀ u ∈ units, Settled u)
    (fun _ u hu => nomatch hu) ?_ (Prod.ext h rfl)
  rintro root roots s s' u units hreport - ih
  refine List.forall_mem_cons.2 ⟨?_, ih⟩
  exact (consistent_ofRoot hreport).write disk _ (ofRoot_fresh hreport).2.2 s

theorem run_settled {p : Project} {s : σ} {b : Batch} (h : (p.run disk s).1 = .ok b) :
    ∀ u ∈ b.units, Settled u := by
  rw [run_eq] at h
  obtain ⟨units, hunits, rfl⟩ := map_eq_ok.1 h
  exact writeRoots_settled disk p hunits

theorem dryRun_consistent {p : Project} {b : Batch} (h : p.dryRun = .ok b) :
    ∀ u ∈ b.units, Consistent u ∧ u.written = none := by
  intro u hu
  obtain ⟨root, -, hreport⟩ := exists_of_forall₂ ((dryRun_eq_ok_iff p b).1 h).flip hu
  exact ⟨consistent_ofRoot hreport, (ofRoot_fresh hreport).2.2⟩

end Project

/-! ## The command line -/

namespace CommandLine

variable {σ : Type} (disk : Disk (StateM σ))

/-- A sequence hands its state on. -/
theorem bind_apply {α β : Type} (x : StateM σ α) (f : α → StateM σ β) (s : σ) :
    (x >>= f) s = f (x s).1 (x s).2 := rfl

/-- A run of the command line generates a batch: its arguments can be read, they and the
configuration file make a configuration, its project can be opened, and no root stops the batch. -/
def Generates (args : List String) (s : σ) (b : Batch) : Prop :=
  ∃ a c p s₁ s₂ s₃, Arguments.read args = .ok a ∧ resolveConfig disk a s = (.ok c, s₁) ∧
    Project.ofConfig disk c s₁ = (.ok p, s₂) ∧
    (if a.dryRun then (p.dryRun, s₂) else p.run disk s₂) = (.ok b, s₃)

theorem batchOutcome_exit (dryRun : Bool) (b : Batch) :
    (batchOutcome dryRun b).exit = 0 ↔ ∀ u ∈ b.units, u.hasErrors = false := by
  unfold batchOutcome Batch.hasErrors
  dsimp only
  split
  · next h =>
    refine iff_of_false Nat.one_ne_zero fun hnone => ?_
    obtain ⟨u, hu, herrors⟩ := List.any_eq_true.1 h
    rw [hnone u hu] at herrors
    cases herrors
  · next h => exact iff_of_true rfl (by simpa using h)

section

variable {dryRun : Bool} {p : Project} {s s' : σ}

theorem generate_of_ok {b : Batch}
    (h : (if dryRun then (p.dryRun, s) else p.run disk s) = (.ok b, s')) :
    (generate disk dryRun p s).1 = batchOutcome dryRun b := by
  unfold generate
  cases dryRun with
  | false =>
    rw [if_neg Bool.false_ne_true] at h ⊢
    rw [bind_apply, h]
    rfl
  | true =>
    rw [if_pos rfl] at h ⊢
    rw [bind_apply, show (pure p.dryRun : StateM σ _) s = (.ok b, s') from h]
    rfl

theorem generate_of_error {fault : EmitFault}
    (h : (if dryRun then (p.dryRun, s) else p.run disk s) = (.error fault, s')) :
    (generate disk dryRun p s).1 = abortOutcome fault := by
  unfold generate
  cases dryRun with
  | false =>
    rw [if_neg Bool.false_ne_true] at h ⊢
    rw [bind_apply, h]
    rfl
  | true =>
    rw [if_pos rfl] at h ⊢
    rw [bind_apply, show (pure p.dryRun : StateM σ _) s = (.error fault, s') from h]
    rfl

end

theorem generate_exit (dryRun : Bool) (p : Project) (s : σ) :
    (generate disk dryRun p s).1.exit = 0 ↔
      ∃ b s', (if dryRun then (p.dryRun, s) else p.run disk s) = (.ok b, s') ∧
        ∀ u ∈ b.units, u.hasErrors = false := by
  rcases houtcome : (if dryRun then (p.dryRun, s) else p.run disk s) with ⟨fault | b, s'⟩
  · rw [generate_of_error disk houtcome]
    refine iff_of_false ?_ ?_
    · rintro ⟨⟩
    · rintro ⟨_, _, heq, -⟩
      cases heq
  · rw [generate_of_ok disk houtcome, batchOutcome_exit]
    constructor
    · exact fun h => ⟨b, s', rfl, h⟩
    · rintro ⟨_, _, heq, h⟩
      cases heq
      exact h

/-- A run whose arguments were read ends in success when it comes to a batch without errors. -/
theorem runWith_exit (a : Arguments) (s : σ) :
    (runWith disk a s).1.exit = 0 ↔
      ∃ c p s₁ s₂, resolveConfig disk a s = (.ok c, s₁) ∧
        Project.ofConfig disk c s₁ = (.ok p, s₂) ∧ (generate disk a.dryRun p s₂).1.exit = 0 := by
  unfold runWith
  rw [bind_apply]
  generalize resolveConfig disk a s = resolved
  obtain ⟨problem | c, s₁⟩ := resolved
  · refine iff_of_false (fun h => nomatch h) ?_
    rintro ⟨_, _, _, _, heq, -⟩
    cases heq
  · dsimp only
    rw [bind_apply]
    generalize hopened : Project.ofConfig disk c s₁ = opened
    obtain ⟨problem | p, s₂⟩ := opened
    · refine iff_of_false (fun h => nomatch h) ?_
      rintro ⟨_, _, _, _, heq, hopen, -⟩
      cases heq
      cases hopened.symm.trans hopen
    · show (generate disk a.dryRun p s₂).1.exit = 0 ↔ _
      constructor
      · exact fun h => ⟨c, p, s₁, s₂, rfl, hopened, h⟩
      · rintro ⟨_, _, _, _, heq, hopen, h⟩
        cases heq
        cases hopened.symm.trans hopen
        exact h

/-- The command line ends in success when it is asked for a text about itself, or when it generates
a batch in which no report has an error. -/
theorem exit_eq_zero_iff (args : List String) (s : σ) :
    (run disk args s).1.exit = 0 ↔
      Arguments.read args = .error .help ∨ Arguments.read args = .error .version ∨
      ∃ b, Generates disk args s b ∧ ∀ u ∈ b.units, u.hasErrors = false := by
  unfold run Generates
  cases hargs : Arguments.read args with
  | error stop =>
    have hnone : ¬∃ b, (∃ a c p s₁ s₂ s₃, Except.error stop = .ok a ∧
        resolveConfig disk a s = (.ok c, s₁) ∧ Project.ofConfig disk c s₁ = (.ok p, s₂) ∧
        (if a.dryRun then (p.dryRun, s₂) else p.run disk s₂) = (.ok b, s₃)) ∧
        ∀ u ∈ b.units, u.hasErrors = false := by
      rintro ⟨b, ⟨a, c, p, s₁, s₂, s₃, heq, -⟩, -⟩
      cases heq
    cases stop with
    | misuse fault =>
      refine iff_of_false (fun h => nomatch h) ?_
      rintro (h | h | h)
      · cases h
      · cases h
      · exact hnone h
    | help => exact iff_of_true rfl (.inl rfl)
    | version => exact iff_of_true rfl (.inr (.inl rfl))
  | ok a =>
    dsimp only
    rw [runWith_exit]
    constructor
    · rintro ⟨c, p, s₁, s₂, hc, hp, hexit⟩
      obtain ⟨b, s₃, hb, hnone⟩ := (generate_exit disk a.dryRun p s₂).1 hexit
      exact .inr (.inr ⟨b, ⟨a, c, p, s₁, s₂, s₃, rfl, hc, hp, hb⟩, hnone⟩)
    · rintro (h | h | ⟨b, ⟨_, c, p, s₁, s₂, s₃, heq, hc, hp, hb⟩, hnone⟩)
      · cases h
      · cases h
      · cases heq
        exact ⟨c, p, s₁, s₂, hc, hp, (generate_exit disk a.dryRun p s₂).2 ⟨b, s₃, hb, hnone⟩⟩

end CommandLine

namespace Project

open UnitReport

/-- Whatever fails on the way: every report of a batch has its errors before its warnings, and is
complete just when it has none; a run has written exactly the units that are complete in the end,
a dry run none; and the command line ends in success when it was asked for a text about itself, or
when it came to a batch of complete units. -/
theorem batch_consistent {σ : Type} (disk : Disk (StateM σ)) :
    (∀ (p : Project) b, p.dryRun = .ok b → ∀ u ∈ b.units, u.Consistent ∧ u.written = none) ∧
    (∀ (p : Project) s b, (p.run disk s).1 = .ok b → ∀ u ∈ b.units,
      u.Consistent ∧ (u.written.isSome = true ↔ u.isComplete = true)) ∧
    ∀ args s, (CommandLine.run disk args s).1.exit = 0 ↔
      CommandLine.Arguments.read args = .error .help ∨
      CommandLine.Arguments.read args = .error .version ∨
      ∃ b, CommandLine.Generates disk args s b ∧ ∀ u ∈ b.units, u.isComplete = true := by
  refine ⟨fun p b => dryRun_consistent, fun p s b h u hu => ?_, fun args s => ?_⟩
  · have hsettled := run_settled disk h u hu
    exact ⟨hsettled.consistent, hsettled.written_iff⟩
  · rw [CommandLine.exit_eq_zero_iff]
    refine or_congr_right (or_congr_right (exists_congr fun b => and_congr_right fun hb => ?_))
    obtain ⟨a, c, p, s₁, s₂, s₃, -, -, -, hbatch⟩ := hb
    have hconsistent : ∀ u ∈ b.units, u.Consistent := by
      split at hbatch
      · have hdry : p.dryRun = .ok b := congrArg Prod.fst hbatch
        exact fun u hu => (dryRun_consistent hdry u hu).1
      · exact fun u hu => (run_settled disk (congrArg Prod.fst hbatch) u hu).consistent
    refine forall₂_congr fun u hu => ?_
    rw [UnitReport.hasErrors_eq_false_iff, (hconsistent u hu).complete_iff]

/-! A lamp whose unit is made, on a disk that takes no file. -/

def fullDisk : Disk (StateM Unit) where
  isFolder _ := pure true
  isFile _ := pure false
  read _ := pure none
  filesBelow _ := pure []
  makeFolders _ := pure true
  write _ _ := pure false
  rename _ _ := pure false
  remove _ := pure ()

theorem fullDisk_replace (path : FilePath) (text : String) :
    (fullDisk.replace path text ()).1 = .error (Disk.temporary path) := by
  unfold Disk.replace
  by_cases hfolder : path.folder.text = "" <;> simp [hfolder, fullDisk] <;> rfl

def deskLamp : InterfaceDecl :=
  { name := "crate::Lamp", store := some {}
    methods := [{ name := "is_on", returns := .named "bool" }] }

def desk : Project := ⟨{}, ⟨[deskLamp]⟩, {}⟩

theorem desk_evaluated :
    ((Emit.unit {} deskLamp (({} : Walk).visit desk.world (.declared deskLamp))
      >>= GeneratedUnit.text).isOk) = true ∧
    (({} : Walk).visit desk.world (.declared deskLamp)).outcome.problems = [] := by
  decide +kernel

theorem batch_consistent_desk : ∃ b u, (desk.run fullDisk ()).1 = .ok b ∧ b.units = [u] ∧
    u.source.isSome = true ∧ u.written = none ∧ u.isComplete = false := by
  obtain ⟨hok, hproblems⟩ := desk_evaluated
  obtain ⟨text, htext⟩ := exists_of_isOk hok
  have hwalk : Walk.ofRoot desk.world deskLamp
      = ({} : Walk).visit desk.world (.declared deskLamp) := Walk.follow.eq_1 _ _ _
  rw [← hwalk] at htext hproblems
  have hreport : desk.report deskLamp
      = .ok (ofRendering deskLamp (Walk.ofRoot desk.world deskLamp) (.ok text)) := by
    rw [report, ofRoot, show desk.config.target = ({} : Target) from rfl, htext]
  have hcomplete : (ofRendering deskLamp (Walk.ofRoot desk.world deskLamp)
      (.ok text)).isComplete = true := by
    rw [(consistent_ofRendering _ _ _).complete_iff, ofRendering, hproblems]
    simp [Diagnostic.isError, Diagnostic.severity]
  have hrun := run_eq fullDisk desk ()
  rw [show desk.declarations.roots = [deskLamp] from rfl, writeRoots_cons desk hreport,
    write_eq_replace hcomplete rfl, fullDisk_replace] at hrun
  refine ⟨⟨[_]⟩, _, congrArg Prod.fst hrun, rfl, rfl, rfl, ?_⟩
  have hunit := ((batch_consistent fullDisk).2.1 desk () _ (congrArg Prod.fst hrun) _
    (List.mem_singleton_self _)).2
  exact Bool.eq_false_iff.2 fun h => Bool.false_ne_true (hunit.2 h)

end Project

end TypedSettings
