import TypedSettings.Proofs.Disk.Replacing
import TypedSettings.Proofs.Project.Writing

/-!
Writing the units of a run again. When a run has ended, each of its units is at rest: written once
more it goes where it went, or fails as it failed. So a second run on what the first one left makes
the same reports and changes no file, unless a unit is written first where only another's way leads.

* `rests_write`, `writeRoots_rests`: a unit that was written is at rest, and stays so.
* `Rests.write`: what comes of writing a unit at rest.
* `writeRoots_again`: what comes of writing all units again.
-/

namespace TypedSettings

open FileTree

namespace UnitReport

variable {output : FilePath} {u u' : UnitReport} {t : FileTree} {a : String}

/-- The unit was to be written: it has a text, and no errors but those that writing made. -/
def Tried (u : UnitReport) : Prop :=
  u.source.isSome = true ∧ ∀ p, .error p ∈ u.diagnostics → ∃ at', p = .unwritable at'

/-- The unit is not written first where the other's way needs a folder, and its own does not. -/
def Clear (output : FilePath) (u v : UnitReport) : Prop :=
  u.Tried → v.Tried → place (Disk.temporary (output.join u.file)) ∈ ways (output.join v.file) →
    place (Disk.temporary (output.join u.file)) ∈ ways (output.join u.file)

/-- The unit was written, and its path leads to the place. -/
def Took (output : FilePath) (u : UnitReport) (q : Place) : Prop :=
  u.written.isSome = true ∧ q = place (output.join u.file)

/-- What came of writing a unit will come of it again. -/
def Rests (output : FilePath) (u u' : UnitReport) (t : FileTree) : Prop :=
  (u.isComplete = false ∧ u' = u) ∨
    ∃ text result, u.isComplete = true ∧ u.source = some text ∧
      Lasting t (output.join u.file) result ∧ u' = u.noteWriting (output.join u.file) result

theorem exists_source (h : u.isComplete = true) : ∃ text, u.source = some text := by
  rw [isComplete, Bool.and_eq_true] at h
  exact Option.isSome_iff_exists.1 h.1

theorem noteWriting_file (u : UnitReport) (path : FilePath) (result : Except FilePath Unit) :
    (u.noteWriting path result).file = u.file := by
  cases result <;> rfl

theorem noteWriting_source (u : UnitReport) (path : FilePath) (result : Except FilePath Unit) :
    (u.noteWriting path result).source = u.source := by
  cases result <;> rfl

theorem noteWriting_written (hfresh : u.written = none) (path : FilePath)
    (result : Except FilePath Unit) :
    (u.noteWriting path result).written.isSome = result.isOk := by
  cases result with
  | ok done => rfl
  | error at' => exact congrArg Option.isSome hfresh

theorem tried_noteWriting (h : u.isComplete = true) (path : FilePath)
    (result : Except FilePath Unit) : (u.noteWriting path result).Tried := by
  have hnone (p : Problem) : .error p ∉ u.diagnostics := by
    intro hp
    rw [isComplete_eq_false hp] at h
    cases h
  refine ⟨?_, fun p hp => ?_⟩
  · rw [noteWriting_source]
    exact (Bool.and_eq_true_iff.1 h).1
  · cases result with
    | ok done => exact absurd hp (hnone p)
    | error at' =>
      rcases List.mem_cons.1 hp with hp | hp
      · cases hp
        exact ⟨_, rfl⟩
      · exact absurd hp (hnone p)

/-- A unit that was written is at rest. -/
theorem rests_write (hfile : u.file = ⟨a ++ ".rs"⟩) (output : FilePath) (t : FileTree) :
    Rests output u (u.write FileTree.disk output t).1 (u.write FileTree.disk output t).2 := by
  cases hcomplete : u.isComplete with
  | false =>
    rw [write_eq_self hcomplete]
    exact .inl ⟨hcomplete, rfl⟩
  | true =>
    obtain ⟨text, hsource⟩ := exists_source hcomplete
    obtain ⟨b, hb⟩ := FilePath.join_append output a ".rs"
    rw [write_eq_replace hcomplete hsource]
    refine .inr ⟨text, (FileTree.disk.replace (output.join u.file) text t).1, hcomplete, hsource,
      ?_, rfl⟩
    rw [hfile, hb]
    exact lasting_replace t b text

/-- Writing a unit replaces one source, or changes nothing. -/
theorem write_step (hfile : u.file = ⟨a ++ ".rs"⟩) (output : FilePath) (t : FileTree) :
    (u.write FileTree.disk output t).2 = t ∨
      (u.write FileTree.disk output t).1.Tried ∧
        (u.write FileTree.disk output t).1.file = u.file ∧
        ReplaceStep t (u.write FileTree.disk output t).2 (output.join u.file) := by
  cases hcomplete : u.isComplete with
  | false => exact .inl (by rw [write_eq_self hcomplete])
  | true =>
    obtain ⟨text, hsource⟩ := exists_source hcomplete
    obtain ⟨b, hb⟩ := FilePath.join_append output a ".rs"
    rw [write_eq_replace hcomplete hsource]
    refine .inr ⟨tried_noteWriting hcomplete _ _, noteWriting_file .., ?_⟩
    rw [hfile, hb]
    exact replace_step t b text

/-- A unit at rest stays so while another is written. -/
theorem Rests.write_other {v : UnitReport} {b : String} (h : Rests output u u' t)
    (hfile : u.file = ⟨a ++ ".rs"⟩) (hfile' : v.file = ⟨b ++ ".rs"⟩)
    (hclear : Clear output u' (v.write FileTree.disk output t).1)
    (hclear' : Clear output (v.write FileTree.disk output t).1 u') :
    Rests output u u' (v.write FileTree.disk output t).2 := by
  rcases write_step hfile' output t with hsame | ⟨htried, hsame, hstep⟩
  · rw [hsame]
    exact h
  · refine h.imp_right ?_
    rintro ⟨text, result, hcomplete, hsource, hlasting, rfl⟩
    refine ⟨text, result, hcomplete, hsource, ?_, rfl⟩
    have hown := tried_noteWriting hcomplete (output.join u.file) result
    have hfirst := hclear hown htried
    have hsecond := hclear' htried hown
    rw [hsame, noteWriting_file] at hfirst hsecond
    obtain ⟨c, hc⟩ := FilePath.join_append output a ".rs"
    obtain ⟨d, hd⟩ := FilePath.join_append output b ".rs"
    rw [hfile, hc] at hlasting hfirst hsecond ⊢
    rw [hfile', hd] at hstep hfirst hsecond
    exact hlasting.step hstep hfirst hsecond

/-- A unit at rest that is written again comes to the same, and changes at most what its own file
holds. -/
theorem Rests.write (h : Rests output u u' t) (hfile : u.file = ⟨a ++ ".rs"⟩)
    (hfresh : u.written = none) {s : FileTree} (hs : SameShape s t) :
    ∃ s', u.write FileTree.disk output s = (u', s') ∧ SameShape s' s ∧
      (∀ q, Took output u' q → s'.file? q = some u'.source) ∧
      ∀ q, ¬Took output u' q → s'.file? q = s.file? q := by
  rcases h with ⟨hcomplete, rfl⟩ | ⟨text, result, hcomplete, hsource, hlasting, rfl⟩
  · refine ⟨s, write_eq_self hcomplete s, .refl s, fun q hq => ?_, fun q _ => rfl⟩
    rw [Took, hfresh] at hq
    cases hq.1
  · have hagain := hs.lasting hlasting
    have htook (q : Place) : Took output (u.noteWriting (output.join u.file) result) q ↔
        result.isOk = true ∧ q = place (output.join u.file) := by
      rw [Took, noteWriting_written hfresh, noteWriting_file]
    refine ⟨s.renewed (output.join u.file) text result, ?_, hagain.renewed_sameShape text,
      fun q hq => ?_, fun q hq => ?_⟩
    · obtain ⟨b, hb⟩ := FilePath.join_append output a ".rs"
      rw [write_eq_replace hcomplete hsource]
      rw [hfile, hb] at hagain ⊢
      rw [hagain.replace_eq]
    · rw [file?_renewed, if_pos ((htook q).1 hq), noteWriting_source, hsource]
    · rw [file?_renewed, if_neg (mt (htook q).2 hq)]

end UnitReport

namespace Project

open UnitReport

/-- A place that no unit took holds what it held. -/
theorem writeRoots_frame (p : Project) {roots : List InterfaceDecl} {t t' : FileTree}
    {units : List UnitReport} (h : writeRoots FileTree.disk p roots t = (.ok units, t')) {q : Place}
    (hq : IsSourcePlace q) (hnone : ∀ u ∈ units, ¬Took p.config.output u q) :
    t'.file? q = t.file? q := by
  obtain ⟨hall, -⟩ := writeRoots_written p h
  rcases hall.files q hq with ⟨u, hu, ⟨path, hpath, hat⟩, -⟩ | ⟨-, hsame⟩
  · refine absurd ⟨by rw [hpath]; rfl, ?_⟩ (hnone u hu)
    rw [← (hall.paths u hu path hpath).1]
    exact eq_place hat
  · exact hsame

/-- Units at rest stay so while others are written. -/
theorem writeRoots_rests (p : Project) {roots : List InterfaceDecl} {t t' : FileTree}
    {units : List UnitReport} {u u' : UnitReport} {a : String}
    (h : writeRoots FileTree.disk p roots t = (.ok units, t')) (hfile : u.file = ⟨a ++ ".rs"⟩)
    (hclear : ∀ v ∈ units, Clear p.config.output u' v ∧ Clear p.config.output v u')
    (hrests : Rests p.config.output u u' t) : Rests p.config.output u u' t' := by
  revert hclear hrests
  refine writeRoots_induct p (motive := fun _ t units t' =>
    (∀ v ∈ units, Clear p.config.output u' v ∧ Clear p.config.output v u') →
      Rests p.config.output u u' t → Rests p.config.output u u' t') (fun _ _ h => h) ?_ h
  rintro root roots t t' v units hreport - ih hclear hrests
  obtain ⟨-, hvfile, -⟩ := ofRoot_fresh hreport
  obtain ⟨b, hb⟩ := Naming.unitPath_eq v.root
  rw [List.forall_mem_cons] at hclear
  exact ih hclear.2 (hrests.write_other hfile (hvfile.trans hb) hclear.1.1 hclear.1.2)

/-- Where the same files and folders are as after a run, units that are written again come to the
same: the places that they took hold what they held after the run, and the others what they hold. -/
theorem writeRoots_again (p : Project) {roots : List InterfaceDecl} {t t' : FileTree}
    {units : List UnitReport} (h : writeRoots FileTree.disk p roots t = (.ok units, t'))
    (hclear : units.Pairwise fun u v => Clear p.config.output u v ∧ Clear p.config.output v u)
    {s : FileTree} (hs : SameShape s t') :
    ∃ s', writeRoots FileTree.disk p roots s = (.ok units, s') ∧ SameShape s' s ∧
      (∀ q, (∃ u ∈ units, Took p.config.output u q) → s'.file? q = t'.file? q) ∧
      ∀ q, (∀ u ∈ units, ¬Took p.config.output u q) → s'.file? q = s.file? q := by
  revert s hclear
  refine writeRoots_induct p (motive := fun roots t units t' =>
    (units.Pairwise fun u v => Clear p.config.output u v ∧ Clear p.config.output v u) →
    ∀ {s : FileTree}, SameShape s t' →
    ∃ s', writeRoots FileTree.disk p roots s = (.ok units, s') ∧ SameShape s' s ∧
      (∀ q, (∃ u ∈ units, Took p.config.output u q) → s'.file? q = t'.file? q) ∧
      ∀ q, (∀ u ∈ units, ¬Took p.config.output u q) → s'.file? q = s.file? q) ?_ ?_ h
  · exact fun t _ s _ => ⟨s, rfl, .refl s, fun q ⟨u, hu, _⟩ => (nomatch hu), fun _ _ => rfl⟩
  · rintro root roots t t' u later hreport hrest ih hclear s hs
    obtain ⟨-, hfile, hfresh⟩ := ofRoot_fresh hreport
    obtain ⟨a, ha⟩ := Naming.unitPath_eq u.root
    have hfirst := write_spec hfresh (hfile.trans ha) p.config.output t
    have hrests := rests_write (hfile.trans ha) p.config.output t
    rw [List.pairwise_cons] at hclear
    have hstill := writeRoots_rests p hrest (hfile.trans ha) hclear.1 hrests
    obtain ⟨s₁, hwrite, hshape, htook, hkept⟩ := hstill.write (hfile.trans ha) hfresh hs
    obtain ⟨s', hagain, hshape', htook', hkept'⟩ := ih hclear.2 (hshape.trans hs)
    refine ⟨s', ?_, hshape'.trans hshape, fun q hq => ?_, fun q hq => ?_⟩
    · rw [writeRoots_cons p hreport, hwrite, hagain]
      rfl
    · by_cases hany : ∃ v ∈ later, Took p.config.output v q
      · exact htook' q hany
      · -- this unit is the last one that took the place
        have hnone : ∀ v ∈ later, ¬Took p.config.output v q := by simpa using hany
        have hown : Took p.config.output (u.write FileTree.disk p.config.output t).1 q := by
          obtain ⟨v, hv, hvq⟩ := hq
          rcases List.mem_cons.1 hv with rfl | hv
          · exact hvq
          · exact absurd hvq (hnone v hv)
        rw [hkept' q hnone, htook q hown]
        rcases hfirst.effect with ⟨-, r, text, hr, hlocate, hsource, hcontent, -⟩ | ⟨hno, -⟩
        · obtain rfl : q = r := by
            rw [eq_place hlocate, hown.2, hfirst.file]
          rw [writeRoots_frame p hrest hr hnone, hcontent, hfirst.source, hsource]
        · rw [Took, hno] at hown
          cases hown.1
    · rw [List.forall_mem_cons] at hq
      rw [hkept' q hq.2, hkept q hq.1]

end Project

end TypedSettings
