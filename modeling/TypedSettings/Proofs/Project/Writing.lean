import TypedSettings.Project
import TypedSettings.Proofs.Disk.FileTree
import TypedSettings.Proofs.Report

/-!
What a run leaves of the units that it wrote. Units are written one after the other, and none looks
at where an earlier one was written: a unit is kept unless a later one with another text leads to
its place.

* `write_spec`: what writing one unit does.
* `AllWritten.cons`: what writing units one after the other does.
* `writeRoots_written`: a run writes its units so.
* `run_kept_iff`: when every unit is kept, and which names lead to one place.
-/

namespace TypedSettings

open FileTree

/-! ## Places of units -/

namespace FilePath

theorem join_append (dir : FilePath) (a ext : String) :
    ∃ b, dir.join ⟨a ++ ext⟩ = ⟨b ++ ext⟩ := by
  unfold join
  split
  · exact ⟨a, rfl⟩
  · split
    · exact ⟨dir.text ++ a, congrArg mk (String.append_assoc ..).symm⟩
    · exact ⟨dir.text ++ "/" ++ a, congrArg mk (String.append_assoc ..).symm⟩

end FilePath

namespace Naming

/-- The names that lead to a unit below the folder for units. -/
def unitNames (name : String) : List String :=
  QualifiedName.modulePath name
    ++ [snakeCase (structName (QualifiedName.simple name)) ++ ".rs"]

theorem unitPath_eq (name : String) : ∃ a, unitPath name = ⟨a ++ ".rs"⟩ := by
  rw [unitPath, FilePath.ofNames_append]
  exact FilePath.join_append _ _ _

theorem unitNames_eq_iff {m n : String} :
    unitNames m = unitNames n ↔
      QualifiedName.modulePath m = QualifiedName.modulePath n ∧
      snakeCase (structName (QualifiedName.simple m))
        = snakeCase (structName (QualifiedName.simple n)) := by
  unfold unitNames
  constructor
  · intro h
    obtain ⟨hmodule, hfile⟩ := List.append_inj' h (Eq.trans List.length_singleton.symm rfl)
    exact ⟨hmodule, String.append_left_inj _ |>.1 (List.singleton_inj.1 hfile)⟩
  · rintro ⟨hmodule, hfile⟩
    rw [hmodule, hfile]

end Naming

namespace UnitReport

/-- The unit was written, by a path that leads to the place. -/
def WrittenAt (u : UnitReport) (t : FileTree) (p : Place) : Prop :=
  ∃ path, u.written = some path ∧ t.locate path = some p

/-- What is read where the unit was written is the unit. -/
def Kept (u : UnitReport) (t : FileTree) : Prop :=
  ∀ path, u.written = some path →
    u.source.isSome = true ∧ (FileTree.disk.read path t).1 = u.source

/-! ## Writing a unit -/

/-- What writing a unit does: it goes to one place and changes no other source, or it goes nowhere
and changes none. -/
structure WriteStep (output : FilePath) (u u' : UnitReport) (t t' : FileTree) : Prop where
  root : u'.root = u.root
  file : u'.file = u.file
  source : u'.source = u.source
  grows : t.Grows t'
  effect : (u'.written = some (output.join u.file) ∧
      ∃ p text, IsSourcePlace p ∧ t'.locate (output.join u.file) = some p ∧
        u.source = some text ∧ t'.file? p = some (some text) ∧
        ∀ q, IsSourcePlace q → q ≠ p → t'.file? q = t.file? q) ∨
    (u'.written = none ∧ ∀ q, IsSourcePlace q → t'.file? q = t.file? q)

theorem write_eq_self {σ : Type} {disk : Disk (StateM σ)} {output : FilePath} {u : UnitReport}
    (h : u.isComplete = false) (s : σ) : u.write disk output s = (u, s) := by
  unfold write
  cases u.source with
  | none => rfl
  | some text =>
    rw [h]
    rfl

theorem write_eq_replace {σ : Type} {disk : Disk (StateM σ)} {output : FilePath}
    {u : UnitReport} {text : String} (h : u.isComplete = true) (hsource : u.source = some text)
    (s : σ) :
    u.write disk output s =
      (u.noteWriting (output.join u.file) (disk.replace (output.join u.file) text s).1,
        (disk.replace (output.join u.file) text s).2) := by
  unfold write
  rw [hsource]
  dsimp only
  rw [if_pos h]
  rfl

theorem write_spec {u : UnitReport} {a : String} (hfresh : u.written = none)
    (hfile : u.file = ⟨a ++ ".rs"⟩) (output : FilePath) (t : FileTree) :
    WriteStep output u (u.write FileTree.disk output t).1 t (u.write FileTree.disk output t).2 := by
  cases hcomplete : u.isComplete with
  | false =>
    rw [write_eq_self hcomplete]
    exact ⟨rfl, rfl, rfl, fun _ h => h, .inr ⟨hfresh, fun _ _ => rfl⟩⟩
  | true =>
    obtain ⟨text, hsource⟩ : ∃ text, u.source = some text := by
      rw [isComplete, Bool.and_eq_true] at hcomplete
      exact Option.isSome_iff_exists.1 hcomplete.1
    obtain ⟨b, hb⟩ := FilePath.join_append output a ".rs"
    have hframe := replace_frame t b text
    rw [← hb, ← hfile] at hframe
    rw [write_eq_replace hcomplete hsource]
    generalize FileTree.disk.replace (output.join u.file) text t = outcome at hframe
    obtain ⟨result, t'⟩ := outcome
    obtain ⟨hgrows, hdone, hfailed⟩ := hframe
    cases result with
    | ok done =>
      obtain ⟨p, hp, hlocate, hcontent, hothers⟩ := hdone rfl
      exact ⟨rfl, rfl, rfl, hgrows, .inl ⟨rfl, p, text, hp, hlocate, hsource, hcontent, hothers⟩⟩
    | error at' =>
      exact ⟨rfl, rfl, rfl, hgrows, .inr ⟨hfresh, hfailed (by intro h; cases h)⟩⟩

namespace WriteStep

variable {output : FilePath} {u u' : UnitReport} {t made t' : FileTree} {a : String}

/-- The path of a unit that was written leads to the place of a source ever after. -/
theorem path (h : WriteStep output u u' t made) (hfile : u.file = ⟨a ++ ".rs"⟩)
    (hgrows : made.Grows t') {path : FilePath} (hpath : u'.written = some path) :
    path = output.join u'.file ∧ u'.source.isSome = true ∧
      ∃ p, IsSourcePlace p ∧ t'.locate path = some p := by
  obtain ⟨b, hb⟩ := FilePath.join_append output a ".rs"
  rw [← hfile] at hb
  rcases h.effect with ⟨hwritten, p, text, hp, hlocate, hsource, -⟩ | ⟨hwritten, -⟩
  · cases hwritten.symm.trans hpath
    rw [hb] at hlocate
    refine ⟨by rw [h.file], by rw [h.source, hsource]; rfl, p, hp, ?_⟩
    rw [hb]
    exact locate_mono hgrows hlocate
  · cases hwritten.symm.trans hpath

/-- A source is the unit if the unit was written to its place, and what it was before if not. -/
theorem file? (h : WriteStep output u u' t made) (hfile : u.file = ⟨a ++ ".rs"⟩)
    (hgrows : made.Grows t') {q : Place} (hq : IsSourcePlace q) :
    (u'.WrittenAt t' q ∧ made.file? q = some u'.source) ∨
    (¬u'.WrittenAt t' q ∧ made.file? q = t.file? q) := by
  obtain ⟨b, hb⟩ := FilePath.join_append output a ".rs"
  rw [← hfile] at hb
  rcases h.effect with
    ⟨hwritten, p, text, -, hlocate, hsource, hcontent, hothers⟩ | ⟨hwritten, hsame⟩
  · have hlocate' : t'.locate (output.join u.file) = some p := by
      rw [hb] at hlocate ⊢
      exact locate_mono hgrows hlocate
    by_cases hqp : q = p
    · subst hqp
      refine .inl ⟨⟨_, hwritten, hlocate'⟩, ?_⟩
      rw [hcontent, h.source, hsource]
    · refine .inr ⟨?_, hothers q hq hqp⟩
      rintro ⟨path, hpath, hat⟩
      cases hwritten.symm.trans hpath
      exact hqp (Option.some.inj (hat.symm.trans hlocate'))
  · refine .inr ⟨?_, hsame q hq⟩
    rintro ⟨path, hpath, -⟩
    cases hwritten.symm.trans hpath

end WriteStep

/-! ## Writing one unit after the other -/

/-- What writing units, in order, makes of `t`: every source is what a unit that was written to its
place has, or what it was before. -/
structure AllWritten (output : FilePath) (t t' : FileTree) (units : List UnitReport) : Prop where
  grows : t.Grows t'
  paths : ∀ u ∈ units, ∀ path, u.written = some path →
    path = output.join u.file ∧ u.source.isSome = true ∧
      ∃ p, IsSourcePlace p ∧ t'.locate path = some p
  files : ∀ p, IsSourcePlace p →
    (∃ u ∈ units, u.WrittenAt t' p ∧ t'.file? p = some u.source) ∨
    ((∀ u ∈ units, ¬u.WrittenAt t' p) ∧ t'.file? p = t.file? p)

theorem AllWritten.nil (output : FilePath) (t : FileTree) : AllWritten output t t [] :=
  ⟨fun _ h => h, fun _ h => (nomatch h), fun _ _ => .inr ⟨fun _ h => (nomatch h), rfl⟩⟩

theorem AllWritten.cons {output : FilePath} {u u' : UnitReport} {units : List UnitReport}
    {t made t' : FileTree} {a : String} (hfile : u.file = ⟨a ++ ".rs"⟩)
    (hstep : WriteStep output u u' t made) (hrest : AllWritten output made t' units) :
    AllWritten output t t' (u' :: units) := by
  constructor
  case grows => exact hstep.grows.trans hrest.grows
  case paths =>
    intro v hv path hpath
    rcases List.mem_cons.1 hv with rfl | hv
    · exact hstep.path hfile hrest.grows hpath
    · exact hrest.paths v hv path hpath
  case files =>
    intro p hp
    -- a unit that is written later decides; if there is none, this one does
    rcases hrest.files p hp with ⟨v, hv, hvp⟩ | ⟨hnone, hkeep⟩
    · exact .inl ⟨v, List.mem_cons_of_mem _ hv, hvp⟩
    · rcases hstep.file? hfile hrest.grows hp with ⟨hat, hfile'⟩ | ⟨hnot, hsame⟩
      · exact .inl ⟨u', List.mem_cons_self, hat, hkeep.trans hfile'⟩
      · refine .inr ⟨?_, hkeep.trans hsame⟩
        intro v hv
        rcases List.mem_cons.1 hv with rfl | hv
        · exact hnot
        · exact hnone v hv

/-- Two units were written to one place. -/
def Meets (u v : UnitReport) (t : FileTree) : Prop := ∃ p, u.WrittenAt t p ∧ v.WrittenAt t p

/-- What is read at a path to a unit's place is what the file there holds. -/
theorem read_of_writtenAt {u : UnitReport} {t : FileTree} {p : Place} {path : FilePath}
    (hpath : u.written = some path) (hp : u.WrittenAt t p) :
    (FileTree.disk.read path t).1 = (t.file? p).join := by
  obtain ⟨path', hpath', hlocate⟩ := hp
  cases hpath.symm.trans hpath'
  show ((t.locate path).bind t.file?).join = _
  rw [hlocate]
  rfl

/-- Where a unit with plain names was written: its names follow the output folder. -/
theorem writtenAt_iff {output : FilePath} {u : UnitReport} {t : FileTree} {p : Place}
    (hfile : u.file = Naming.unitPath u.root) (hwritten : u.written = some (output.join u.file))
    (hplain : ∀ n ∈ Naming.unitNames u.root, FilePath.IsPlain n) :
    u.WrittenAt t p ↔
      ∃ dir, t.follow [] output.components = some dir ∧ p = dir ++ Naming.unitNames u.root := by
  obtain ⟨a, ha⟩ := Naming.unitPath_eq u.root
  obtain ⟨b, hb⟩ := FilePath.join_append output a ".rs"
  have hcomponents : (output.join u.file).components
      = output.components ++ (Naming.unitNames u.root).map .normal := by
    rw [hfile]
    exact FilePath.components_join output hplain
  have hlocate : t.locate (output.join u.file)
      = (t.follow [] output.components).map (· ++ Naming.unitNames u.root) := by
    refine locate_eq hcomponents ?_ ?_ t
    · rw [hfile, ha, hb]
      exact fun h => absurd (congrArg String.length h) (by simp)
    · rw [hfile, ha, hb, String.toList_append]
      simp
  constructor
  · rintro ⟨path, hpath, hat⟩
    cases hwritten.symm.trans hpath
    rw [hlocate] at hat
    obtain ⟨dir, hdir, rfl⟩ := Option.map_eq_some_iff.1 hat
    exact ⟨dir, hdir, rfl⟩
  · rintro ⟨dir, hdir, rfl⟩
    exact ⟨_, hwritten, by rw [hlocate, hdir]; rfl⟩

namespace AllWritten

variable {output : FilePath} {t t' : FileTree} {units : List UnitReport}

/-- All units that were written are kept, unless two of them with different texts meet. -/
theorem kept_iff (h : AllWritten output t t' units) :
    (∀ u ∈ units, u.Kept t') ↔
      ∀ u ∈ units, ∀ v ∈ units, u.Meets v t' → u.source = v.source := by
  constructor
  · rintro hkept u hu v hv ⟨p, hat, hat'⟩
    obtain ⟨path, hpath, -⟩ := id hat
    obtain ⟨path', hpath', -⟩ := id hat'
    rw [← (hkept u hu path hpath).2, ← (hkept v hv path' hpath').2,
      read_of_writtenAt hpath hat, read_of_writtenAt hpath' hat']
  · intro hsame u hu path hpath
    obtain ⟨-, hsource, p, hp, hlocate⟩ := h.paths u hu path hpath
    have hat : u.WrittenAt t' p := ⟨path, hpath, hlocate⟩
    refine ⟨hsource, ?_⟩
    rcases h.files p hp with ⟨v, hv, hat', hcontent⟩ | ⟨hnever, -⟩
    · rw [read_of_writtenAt hpath hat, hcontent, hsame u hu v hv ⟨p, hat, hat'⟩]
      rfl
    · exact absurd hat (hnever u hu)

/-- Units with plain names meet exactly when their names are the same. -/
theorem meets_iff (h : AllWritten output t t' units) {u v : UnitReport} (hu : u ∈ units)
    (hv : v ∈ units) (hfile : u.file = Naming.unitPath u.root)
    (hfile' : v.file = Naming.unitPath v.root) (hwritten : u.written.isSome = true)
    (hwritten' : v.written.isSome = true)
    (hplain : ∀ n ∈ Naming.unitNames u.root, FilePath.IsPlain n)
    (hplain' : ∀ n ∈ Naming.unitNames v.root, FilePath.IsPlain n) :
    u.Meets v t' ↔ Naming.unitNames u.root = Naming.unitNames v.root := by
  obtain ⟨path, hpath⟩ := Option.isSome_iff_exists.1 hwritten
  obtain ⟨path', hpath'⟩ := Option.isSome_iff_exists.1 hwritten'
  obtain ⟨rfl, -, p, -, hlocate⟩ := h.paths u hu path hpath
  obtain ⟨rfl, -⟩ := h.paths v hv path' hpath'
  constructor
  · rintro ⟨q, hat, hat'⟩
    obtain ⟨dir, hdir, rfl⟩ := (writtenAt_iff hfile hpath hplain).1 hat
    obtain ⟨dir', hdir', heq⟩ := (writtenAt_iff hfile' hpath' hplain').1 hat'
    cases hdir.symm.trans hdir'
    exact List.append_cancel_left heq
  · intro heq
    have hat : u.WrittenAt t' p := ⟨_, hpath, hlocate⟩
    refine ⟨p, hat, (writtenAt_iff hfile' hpath' hplain').2 ?_⟩
    rw [← heq]
    exact (writtenAt_iff hfile hpath hplain).1 hat

end AllWritten

/-! ## Runs -/

/-- A report on a root goes to the root's file, and was not written yet. -/
theorem ofRoot_fresh {w : World} {g : Target} {root : InterfaceDecl} {u : UnitReport}
    (h : ofRoot w g root = .ok u) :
    u.root = root.name ∧ u.file = Naming.unitPath u.root ∧ u.written = none := by
  obtain ⟨rendered, rfl⟩ := exists_rendering h
  exact ⟨rfl, rfl, rfl⟩

end UnitReport

namespace Project

open UnitReport

theorem writeRoots_cons {σ : Type} {disk : Disk (StateM σ)} (p : Project) {root : InterfaceDecl}
    {roots : List InterfaceDecl} {u : UnitReport} (h : p.report root = .ok u) (s : σ) :
    writeRoots disk p (root :: roots) s =
      ((writeRoots disk p roots (u.write disk p.config.output s).2).1.map
          fun us => (u.write disk p.config.output s).1 :: us,
        (writeRoots disk p roots (u.write disk p.config.output s).2).2) := by
  rw [writeRoots, h]
  rfl

/-- A run that ends is one over the first root, and then one over the others. -/
theorem writeRoots_induct {σ : Type} {disk : Disk (StateM σ)} (p : Project)
    {motive : List InterfaceDecl → σ → List UnitReport → σ → Prop} (nil : ∀ s, motive [] s [] s)
    (cons : ∀ {root : InterfaceDecl} {roots : List InterfaceDecl} {s s' : σ} {u : UnitReport}
      {units : List UnitReport}, p.report root = .ok u →
      writeRoots disk p roots (u.write disk p.config.output s).2 = (.ok units, s') →
      motive roots (u.write disk p.config.output s).2 units s' →
      motive (root :: roots) s ((u.write disk p.config.output s).1 :: units) s')
    {roots : List InterfaceDecl} {s s' : σ} {units : List UnitReport}
    (h : writeRoots disk p roots s = (.ok units, s')) : motive roots s units s' := by
  induction roots generalizing s units with
  | nil =>
    cases h
    exact nil _
  | cons root roots ih =>
    cases hreport : p.report root with
    | error fault =>
      rw [writeRoots, hreport] at h
      cases h
    | ok u =>
      rw [writeRoots_cons p hreport] at h
      cases hrest : writeRoots disk p roots (u.write disk p.config.output s).2 with
      | mk result last =>
        rw [hrest] at h
        cases result with
        | error fault => cases h
        | ok later =>
          cases h
          exact cons hreport hrest (ih hrest)

/-- The units of a run are written in order, each to its own root's file. -/
theorem writeRoots_written (p : Project) {roots : List InterfaceDecl} {t t' : FileTree}
    {units : List UnitReport} (h : writeRoots FileTree.disk p roots t = (.ok units, t')) :
    AllWritten p.config.output t t' units ∧ ∀ u ∈ units, u.file = Naming.unitPath u.root := by
  refine writeRoots_induct p (motive := fun _ t units t' => AllWritten p.config.output t t' units ∧
    ∀ u ∈ units, u.file = Naming.unitPath u.root) ?_ ?_ h
  · exact fun t => ⟨.nil _ _, fun u hu => nomatch hu⟩
  · rintro root roots t t' u units hreport - ⟨hwritten, hfiles⟩
    obtain ⟨-, hfile, hfresh⟩ := ofRoot_fresh hreport
    obtain ⟨a, ha⟩ := Naming.unitPath_eq u.root
    have hstep := write_spec hfresh (hfile.trans ha) p.config.output t
    refine ⟨.cons (hfile.trans ha) hstep hwritten, List.forall_mem_cons.2 ⟨?_, hfiles⟩⟩
    rw [hstep.file, hstep.root, hfile]

theorem run_eq {σ : Type} (disk : Disk (StateM σ)) (p : Project) (s : σ) :
    p.run disk s = ((writeRoots disk p p.declarations.roots s).1.map Batch.mk,
      (writeRoots disk p p.declarations.roots s).2) := rfl

/-- The units that a run reports. A run that ends in a fatal fault reports none. -/
def unitsAfter (p : Project) (t : FileTree) : List UnitReport :=
  match (p.run FileTree.disk t).1 with
  | .ok batch => batch.units
  | .error _ => []

/-- What a run makes of a tree. -/
def treeAfter (p : Project) (t : FileTree) : FileTree := (p.run FileTree.disk t).2

theorem run_written (p : Project) (t : FileTree) :
    p.unitsAfter t = [] ∨
    (AllWritten p.config.output t (p.treeAfter t) (p.unitsAfter t) ∧
      ∀ u ∈ p.unitsAfter t, u.file = Naming.unitPath u.root) := by
  rw [unitsAfter, treeAfter, run_eq]
  cases hroots : writeRoots FileTree.disk p p.declarations.roots t with
  | mk result last =>
    cases result with
    | error fault => exact .inl rfl
    | ok units => exact .inr (writeRoots_written p hroots)

/-- After a run every unit that was written is kept, unless two units with different texts were
written to one place. Units with plain names are written to one place exactly when their roots are
of one module and their names have one snake-case form. -/
theorem run_kept_iff (p : Project) (t : FileTree) :
    ((∀ u ∈ p.unitsAfter t, u.Kept (p.treeAfter t)) ↔
      ∀ u ∈ p.unitsAfter t, ∀ v ∈ p.unitsAfter t,
        u.Meets v (p.treeAfter t) → u.source = v.source) ∧
    ∀ u ∈ p.unitsAfter t, ∀ v ∈ p.unitsAfter t,
      u.written.isSome = true → v.written.isSome = true →
      (∀ n ∈ Naming.unitNames u.root, FilePath.IsPlain n) →
      (∀ n ∈ Naming.unitNames v.root, FilePath.IsPlain n) →
      (u.Meets v (p.treeAfter t) ↔
        QualifiedName.modulePath u.root = QualifiedName.modulePath v.root ∧
        Naming.snakeCase (Naming.structName (QualifiedName.simple u.root))
          = Naming.snakeCase (Naming.structName (QualifiedName.simple v.root))) := by
  rcases p.run_written t with hnone | ⟨hall, hfiles⟩
  · rw [hnone]
    exact ⟨⟨fun _ u hu => (nomatch hu), fun _ u hu => (nomatch hu)⟩, fun u hu => (nomatch hu)⟩
  · refine ⟨hall.kept_iff, ?_⟩
    intro u hu v hv hwritten hwritten' hplain hplain'
    rw [← Naming.unitNames_eq_iff]
    exact hall.meets_iff hu hv (hfiles u hu) (hfiles v hv) hwritten hwritten' hplain hplain'

end Project

/-! Two names with one snake-case form: the second unit takes the place of the first, and both are
reported as written there. -/

example : Naming.unitPath "crate::HTTPClient" = Naming.unitPath "crate::HttpClient" := by
  decide +kernel

example :
    let file : FilePath := ⟨"http_client_impl.rs"⟩
    let path : FilePath := ⟨"out/http_client_impl.rs"⟩
    let first := UnitReport.write FileTree.disk ⟨"out"⟩
      ⟨"crate::HTTPClient", file, some "first", [], none⟩ {}
    let second := UnitReport.write FileTree.disk ⟨"out"⟩
      ⟨"crate::HttpClient", file, some "second", [], none⟩ first.2
    first.1.written = some path ∧ second.1.written = some path ∧
      (FileTree.disk.read path second.2).1 = some "second" := by
  decide +kernel

end TypedSettings
