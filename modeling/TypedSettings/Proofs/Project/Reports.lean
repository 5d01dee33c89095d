import TypedSettings.Proofs.Accessor.Pairs
import TypedSettings.Proofs.Interface.Names
import TypedSettings.Proofs.Project.Isolation
import TypedSettings.Proofs.Project.Writing
import TypedSettings.Proofs.Unit.Needs

/-!
Which roots get a report. A need of a root's unit that is not met becomes a problem of that root,
unless it is a name: a name that is no identifier stops the batch, and so does code that has no
layout.

* `ofRoot_eq_error_iff`: when a root gets no report.
* `tells_ofRoot`: what the report says when the unit cannot be made.
* `mem_needs`: where the names come from that a unit needs.
* `every_root_reported_iff`: when every root gets its report.
-/

namespace TypedSettings

open Source

/-! ## Reports -/

namespace UnitReport

variable {w : World} {t : Target} {root : InterfaceDecl}

/-- What the unit of a root needs. -/
def needs (w : World) (t : Target) (root : InterfaceDecl) : List Need :=
  Emit.unitNeeds t root (Walk.ofRoot w root)

/-- The first need of a root's unit that is not met is a name. -/
def BadName (w : World) (t : Target) (root : InterfaceDecl) (s : String) : Prop :=
  ∃ before after, needs w t root = before ++ .name s :: after ∧
    (∀ n ∈ before, n.fault? = none) ∧ Emit.isIdentifier s = false

/-- All needs of a root's unit are met, and its code can be read but not laid out. -/
def Unlaid (w : World) (t : Target) (root : InterfaceDecl) : Prop :=
  ∃ u trees, Emit.unit t root (Walk.ofRoot w root) = .ok u ∧
    readTokens Grammar.file u.tokens = .ok trees ∧ Layout.file? trees = none

theorem badName_iff {s : String} :
    BadName w t root s ↔ Need.firstFault? (needs w t root) = some (.notIdentifier s) := by
  rw [Need.firstFault?, List.findSome?_eq_some_iff]
  constructor
  · rintro ⟨before, after, hneeds, hmet, hs⟩
    refine ⟨before, .name s, after, hneeds, ?_, hmet⟩
    rw [Need.fault?_name, hs]
    rfl
  · rintro ⟨before, n, after, hneeds, hfault, hmet⟩
    obtain ⟨s', rfl, hs, heq⟩ := Need.fault?_fatal hfault rfl
    cases heq
    exact ⟨before, after, hneeds, hmet, hs⟩

theorem text_fault {u : GeneratedUnit} {fault : EmitFault} (h : u.text = .error fault)
    (hfatal : fault.isFatal = true) :
    fault = .noLayout ∧
      ∃ trees, readTokens Grammar.file u.tokens = .ok trees ∧ Layout.file? trees = none := by
  unfold GeneratedUnit.text at h
  cases hread : readTokens Grammar.file u.tokens with
  | error pos =>
    rw [hread] at h
    cases h
    cases hfatal
  | ok trees =>
    rw [hread] at h
    dsimp only at h
    cases hlayout : Layout.file? trees with
    | some code => rw [hlayout] at h; cases h
    | none =>
      rw [hlayout] at h
      cases h
      exact ⟨rfl, trees, rfl, hlayout⟩

/-- What comes of the unit of a root. -/
def rendered (w : World) (t : Target) (root : InterfaceDecl) : Except EmitFault String :=
  Emit.unit t root (Walk.ofRoot w root) >>= GeneratedUnit.text

/-- A fault that is fatal leaves no report, and any other stands in it. -/
theorem ofRoot_cases (w : World) (t : Target) (root : InterfaceDecl) :
    (∃ fault, rendered w t root = .error fault ∧ fault.isFatal = true ∧
      ofRoot w t root = .error fault) ∨
    ((∀ fault, rendered w t root = .error fault → fault.isFatal = false) ∧
      ofRoot w t root = .ok (ofRendering root (Walk.ofRoot w root) (rendered w t root))) := by
  have hrendered : (Emit.unit t root (Walk.ofRoot w root) >>= GeneratedUnit.text)
      = rendered w t root := rfl
  unfold ofRoot
  dsimp only
  rw [hrendered]
  cases rendered w t root with
  | ok text => exact .inr ⟨by rintro _ ⟨⟩, rfl⟩
  | error fault =>
    dsimp only
    split
    · next hfatal => exact .inl ⟨fault, rfl, hfatal, rfl⟩
    · next hfatal =>
      refine .inr ⟨?_, rfl⟩
      intro other h
      cases h
      exact Bool.eq_false_iff.2 hfatal

/-- What comes of a unit whose needs are not all met is the fault of the first that is not. -/
theorem rendered_of_unmet {fault : EmitFault}
    (h : Need.firstFault? (needs w t root) = some fault) :
    rendered w t root = .error fault := by
  have hunit : Emit.unit t root (Walk.ofRoot w root) = .error fault :=
    faultOf_eq_some_iff.1 ((Emit.unit_fault t root _).trans h)
  rw [rendered, hunit]
  rfl

/-- What comes of a unit that could be made is its text. -/
theorem rendered_eq_text {u : GeneratedUnit}
    (hu : Emit.unit t root (Walk.ofRoot w root) = .ok u) : rendered w t root = u.text := by
  rw [rendered, hu]
  exact pure_bind u GeneratedUnit.text

/-- Where all needs are met there is a unit, and its code is read back and laid out. -/
theorem rendered_of_met (h : Need.firstFault? (needs w t root) = none) :
    ∃ u, Emit.unit t root (Walk.ofRoot w root) = .ok u ∧ rendered w t root = u.text := by
  obtain ⟨u, hu⟩ := faultOf_eq_none_iff.1 ((Emit.unit_fault t root (Walk.ofRoot w root)).trans h)
  exact ⟨u, hu, rendered_eq_text hu⟩

/-- A root gets no report when the first need that is not met is a name, or when its code has no
layout. -/
theorem ofRoot_eq_error_iff {fault : EmitFault} :
    ofRoot w t root = .error fault ↔
      (∃ s, BadName w t root s ∧ fault = .notIdentifier s) ∨
      (Unlaid w t root ∧ fault = .noLayout) := by
  have hfault : ofRoot w t root = .error fault ↔
      rendered w t root = .error fault ∧ fault.isFatal = true := by
    rcases ofRoot_cases w t root with ⟨e, he, hfatal, hroot⟩ | ⟨hsoft, hroot⟩
    · rw [hroot, he]
      constructor
      · intro h
        cases h
        exact ⟨rfl, hfatal⟩
      · rintro ⟨h, -⟩
        cases h
        rfl
    · rw [hroot]
      refine iff_of_false nofun ?_
      rintro ⟨h, hfatal⟩
      rw [hsoft fault h] at hfatal
      cases hfatal
  rw [hfault]
  constructor
  · rintro ⟨h, hfatal⟩
    cases hneeds : Need.firstFault? (needs w t root) with
    | some e =>
      cases (rendered_of_unmet hneeds).symm.trans h
      obtain ⟨n, -, hn⟩ := List.exists_of_findSome?_eq_some hneeds
      obtain ⟨s, -, -, rfl⟩ := Need.fault?_fatal hn hfatal
      exact .inl ⟨s, badName_iff.2 hneeds, rfl⟩
    | none =>
      obtain ⟨u, hu, htext⟩ := rendered_of_met hneeds
      obtain ⟨rfl, trees, hread, hlayout⟩ := text_fault (htext.symm.trans h) hfatal
      exact .inr ⟨⟨u, trees, hu, hread, hlayout⟩, rfl⟩
  · rintro (⟨s, hs, rfl⟩ | ⟨⟨u, trees, hu, hread, hlayout⟩, rfl⟩)
    · exact ⟨rendered_of_unmet (badName_iff.1 hs), rfl⟩
    · refine ⟨?_, rfl⟩
      have htext : u.text = .error .noLayout := by
        unfold GeneratedUnit.text
        simp only [hread, hlayout]
      exact (rendered_eq_text hu).trans htext

/-- A root stops the batch: it gets no report. -/
def Stops (w : World) (t : Target) (root : InterfaceDecl) : Prop :=
  (∃ s, BadName w t root s) ∨ Unlaid w t root

theorem stops_iff : Stops w t root ↔ ∃ fault, ofRoot w t root = .error fault := by
  simp only [ofRoot_eq_error_iff]
  constructor
  · rintro (⟨s, hs⟩ | hu)
    · exact ⟨_, .inl ⟨s, hs, rfl⟩⟩
    · exact ⟨_, .inr ⟨hu, rfl⟩⟩
  · rintro ⟨fault, ⟨s, hs, -⟩ | ⟨hu, -⟩⟩
    · exact .inl ⟨s, hs⟩
    · exact .inr hu

/-- A report on a root: it has the text of the root's unit, or why there is none. -/
structure Tells (w : World) (t : Target) (d : InterfaceDecl) (u : UnitReport) : Prop where
  root : u.root = d.name
  source : u.source = (rendered w t d).toOption
  problem : ∀ fault, rendered w t d = .error fault → .error (.notEmitted fault) ∈ u.diagnostics
  /-- of the needs that are not met, the first is the reason -/
  unmet : ∀ fault, Need.firstFault? (needs w t d) = some fault → rendered w t d = .error fault

theorem ofRendering_root (d : InterfaceDecl) (walk : Walk) (r : Except EmitFault String) :
    (ofRendering d walk r).root = d.name := rfl

theorem ofRendering_source (d : InterfaceDecl) (walk : Walk) (r : Except EmitFault String) :
    (ofRendering d walk r).source = r.toOption := rfl

theorem tells_ofRoot {u : UnitReport} (h : ofRoot w t root = .ok u) : Tells w t root u := by
  rcases ofRoot_cases w t root with ⟨fault, -, -, hroot⟩ | ⟨-, hroot⟩
  · rw [hroot] at h
    cases h
  · rw [hroot] at h
    cases h
    constructor
    case root => exact ofRendering_root _ _ _
    case source => exact ofRendering_source _ _ _
    case problem => exact fun fault hfault => error_mem_ofRendering.2 (.inr ⟨fault, hfault, rfl⟩)
    case unmet => exact fun fault => rendered_of_unmet

/-- Writing a unit keeps what its report tells. -/
theorem Tells.write {u : UnitReport} (h : Tells w t root u) (output : FilePath) (tree : FileTree) :
    Tells w t root (u.write FileTree.disk output tree).1 := by
  have hnote (path : FilePath) (result : Except FilePath Unit) :
      Tells w t root (u.noteWriting path result) := by
    obtain ⟨hroot, hsource, hproblem, hunmet⟩ := h
    cases result with
    | ok _ => exact ⟨hroot, hsource, hproblem, hunmet⟩
    | error at' =>
      exact ⟨hroot, hsource, fun f hf => List.mem_cons_of_mem _ (hproblem f hf), hunmet⟩
  cases hcomplete : u.isComplete with
  | false =>
    rw [write_eq_self hcomplete]
    exact h
  | true =>
    rw [isComplete, Bool.and_eq_true] at hcomplete
    obtain ⟨text, hsource⟩ := Option.isSome_iff_exists.1 hcomplete.1
    rw [write_eq_replace (by rw [isComplete, Bool.and_eq_true]; exact hcomplete) hsource]
    exact hnote _ _

end UnitReport

/-! ## Where names come from -/

/-- The name and the parameter of an accessor are names of its method. -/
theorem AccessorSpec.ofMethod_names {serializer : Option String} {interface : String}
    {m : MethodDecl} {s : AccessorSpec} (h : ofMethod serializer interface m = .ok s) :
    s.method ∈ m.names ∧ (s.role = .putter → s.param.getD "value" ∈ m.names) := by
  unfold ofMethod at h
  cases hrole : m.role with
  | error fault =>
    rw [hrole] at h
    cases h
  | ok role =>
    simp only [hrole, pure_bind] at h
    split at h
    · obtain ⟨found, -, h⟩ := bind_eq_ok.1 h
      cases h
      refine ⟨List.mem_cons_self, ?_⟩
      rintro rfl
      obtain ⟨p, hp, -⟩ := MethodDecl.of_putter hrole
      simp [MethodDecl.names, hp]
    · cases h

namespace UnitReport

variable {w : World} {t : Target} {root : InterfaceDecl}

/-- A name that a unit needs is that of its structure, the last part of the serializer's path, or a
name of a method of an interface that the root reaches. -/
theorem mem_needs {n : String} (h : .name n ∈ needs w t root) :
    n = Naming.structName (QualifiedName.simple root.name) ∨
    (∃ path, t.serializer = some path ∧ n = QualifiedName.simple path) ∨
    ∃ r m, w.Reaches (.declared root) r ∧ m ∈ r.methods ∧ n ∈ m.names := by
  have hmethod {s : AccessorSpec} (hs : s ∈ (Walk.ofRoot w root).outcome.specs) :
      (∃ r m, w.Reaches (.declared root) r ∧ m ∈ r.methods ∧ s.method ∈ m.names) ∧
      (s.role = .putter →
        ∃ r m, w.Reaches (.declared root) r ∧ m ∈ r.methods ∧ s.param.getD "value" ∈ m.names) := by
    obtain ⟨r, m, hr, hm, hok⟩ := Walk.exists_method hs
    obtain ⟨hname, hparam⟩ := AccessorSpec.ofMethod_names hok
    exact ⟨⟨r, m, hr, hm, hname⟩, fun hrole => ⟨r, m, hr, hm, hparam hrole⟩⟩
  rcases Emit.name_mem_unitNeeds h with hstruct | ⟨s, hs, hn⟩ | ⟨⟨g, p⟩, hpair, hn⟩
  · exact .inl hstruct
  · obtain ⟨hname, hparam⟩ := hmethod hs
    rcases Emit.name_mem_accessorNeeds hn with rfl | ⟨hrole, rfl⟩ | hserializer
    · exact .inr (.inr hname)
    · exact .inr (.inr (hparam hrole))
    · exact .inr (.inl hserializer)
  · obtain ⟨hg, hp, -⟩ := (Walk.holds_specs w root).isPair (List.mem_of_mem_filter hpair)
    rcases hn with rfl | rfl
    · exact .inr (.inr (hmethod hg).1)
    · exact .inr (.inr (hmethod hp).1)

end UnitReport

/-- A serializer that passes the check of a configuration is a path that can be read. -/
theorem Config.exists_path {c : Config} (h : c.validate = .ok ()) {path : String}
    (hpath : c.serializer = some path) : ∃ tree, readPath path = .ok tree := by
  unfold validate at h
  rw [hpath] at h
  dsimp only at h
  cases htree : readPath path with
  | ok tree => exact ⟨tree, rfl⟩
  | error fault =>
    rw [htree] at h
    cases h

namespace Project

/-- A root of the project stops the batch. -/
def Stops (p : Project) (root : InterfaceDecl) : Prop :=
  UnitReport.Stops p.world p.config.target root

/-- A report tells of a root of the project. -/
def Tells (p : Project) (root : InterfaceDecl) (u : UnitReport) : Prop :=
  UnitReport.Tells p.world p.config.target root u

theorem report_eq_ok_iff {p : Project} {root : InterfaceDecl} :
    (∃ u, p.report root = .ok u) ↔ ¬p.Stops root := by
  rw [Stops, UnitReport.stops_iff]
  show (∃ u, p.report root = .ok u) ↔ ¬∃ fault, p.report root = .error fault
  cases p.report root <;> simp

/-- There is a batch where no root stops it. -/
theorem dryRun_iff (p : Project) :
    (∃ b, p.dryRun = .ok b) ↔ ∀ root ∈ p.declarations.roots, ¬p.Stops root := by
  have hunits : (∃ b, p.dryRun = .ok b) ↔
      ∃ units, p.declarations.roots.mapM p.report = .ok units ∧ ∀ u ∈ units, True := by
    simp only [dryRun_eq_ok_iff, mapM_eq_ok_iff, implies_true, and_true]
    exact ⟨fun ⟨b, hb⟩ => ⟨b.units, hb⟩, fun ⟨units, h⟩ => ⟨⟨units⟩, h⟩⟩
  rw [hunits, exists_mapM_eq_ok_iff]
  simp only [and_true, report_eq_ok_iff]

/-- Every root is generated and written where none stops the run. -/
theorem writeRoots_eq_ok_iff (p : Project) (roots : List InterfaceDecl) (t : FileTree) :
    (∃ units, (writeRoots FileTree.disk p roots t).1 = .ok units) ↔
      ∀ root ∈ roots, ¬p.Stops root := by
  induction roots generalizing t with
  | nil => exact iff_of_true ⟨[], rfl⟩ (by simp)
  | cons root roots ih =>
    rw [List.forall_mem_cons, ← report_eq_ok_iff]
    cases hreport : p.report root with
    | error fault =>
      have hrun : (writeRoots FileTree.disk p (root :: roots) t).1 = .error fault := by
        rw [writeRoots, hreport]
        rfl
      rw [hrun]
      refine iff_of_false ?_ ?_
      · rintro ⟨_, ⟨⟩⟩
      · rintro ⟨⟨_, ⟨⟩⟩, -⟩
    | ok u =>
      rw [writeRoots_cons p hreport, ← ih (u.write FileTree.disk p.config.output t).2]
      dsimp only
      constructor
      · rintro ⟨units, h⟩
        obtain ⟨rest, hrest, -⟩ := map_eq_ok.1 h
        exact ⟨⟨u, rfl⟩, rest, hrest⟩
      · rintro ⟨-, rest, hrest⟩
        exact ⟨_, map_eq_ok.2 ⟨rest, hrest, rfl⟩⟩

/-- There is a batch of a run where no root stops it. -/
theorem run_iff (p : Project) (t : FileTree) :
    (∃ b, (p.run FileTree.disk t).1 = .ok b) ↔ ∀ root ∈ p.declarations.roots, ¬p.Stops root := by
  rw [← writeRoots_eq_ok_iff p _ t]
  show (∃ b, (writeRoots FileTree.disk p p.declarations.roots t).1.map Batch.mk = .ok b) ↔ _
  constructor
  · rintro ⟨b, hb⟩
    obtain ⟨units, hunits, -⟩ := map_eq_ok.1 hb
    exact ⟨units, hunits⟩
  · rintro ⟨units, hunits⟩
    exact ⟨⟨units⟩, map_eq_ok.2 ⟨units, hunits, rfl⟩⟩

/-- A run reports its roots in order. -/
theorem writeRoots_tells (p : Project) {roots : List InterfaceDecl} {t : FileTree}
    {units : List UnitReport} (h : (writeRoots FileTree.disk p roots t).1 = .ok units) :
    List.Forall₂ p.Tells roots units :=
  writeRoots_induct p (motive := fun roots _ units _ => List.Forall₂ p.Tells roots units)
    (fun _ => .nil) (fun hreport _ ih => .cons ((UnitReport.tells_ofRoot hreport).write _ _) ih)
    (Prod.ext h rfl)

/-- The names of the interfaces that come along are identifiers. -/
theorem bundled_names : ∀ e ∈ Registry.bundled.interfaces, ∀ m ∈ e.methods, ∀ n ∈ m.names,
    Emit.isIdentifier n = true := by
  decide +kernel

/-- A bad name is not that of an interface of a source, or in one. -/
theorem not_badName_of_declared {p : Project} {sources : List SourceText}
    (hsources : Declarations.ofSources sources = .ok p.declarations) {d : InterfaceDecl}
    (hd : d ∈ p.declarations.interfaces) {n : String} (hn : Emit.isIdentifier n = false) :
    n ≠ Naming.structName (QualifiedName.simple d.name) ∧ ∀ m ∈ d.methods, n ∉ m.names := by
  obtain ⟨s, -, hdeclares⟩ := Declarations.mem_ofSources hsources hd
  obtain ⟨hstruct, hmethods⟩ := hdeclares.names
  refine ⟨?_, fun m hm hnm => Bool.eq_false_iff.1 hn (hmethods m hm n hnm)⟩
  rintro rfl
  exact Bool.eq_false_iff.1 hn hstruct

/-- What a root reaches is an interface of a source or of a manifest. -/
theorem mem_of_reaches {p : Project} {root : InterfaceDecl} (hroot : root ∈ p.declarations.roots)
    {r : Reached} (hr : p.world.Reaches (.declared root) r) :
    match r with
    | .declared d => d ∈ p.declarations.interfaces
    | .external e => e ∈ p.registry.interfaces := by
  rcases hr.eq_or_stands with rfl | hstands
  · exact List.mem_of_mem_filter hroot
  · cases r with
    | declared d => exact List.mem_of_find?_eq_some hstands
    | external e => exact List.mem_of_find?_eq_some hstands.2

/-- A batch has a report on every root, in order, or there is none: it stops at a root of which a
name is no identifier, or of which the code has no layout. Such a name is the last part of the
serializer's path, or stands in a manifest; names in sources are identifiers. Every other need that
is not met becomes a problem of the root that has it. -/
theorem every_root_reported_iff (p : Project) (sources : List SourceText)
    (texts : List (FilePath × Option String))
    (hsources : Declarations.ofSources sources = .ok p.declarations)
    (hmanifests : (if p.config.bundled then Registry.bundled else {}).loadAll texts
      = .ok p.registry)
    (hvalid : p.config.validate = .ok ()) :
    ((∃ b, p.dryRun = .ok b) ↔ ∀ root ∈ p.declarations.roots, ¬p.Stops root) ∧
    (∀ t, (∃ b, (p.run FileTree.disk t).1 = .ok b) ↔
      ∀ root ∈ p.declarations.roots, ¬p.Stops root) ∧
    (∀ b, p.dryRun = .ok b ∨ (∃ t, (p.run FileTree.disk t).1 = .ok b) →
      List.Forall₂ p.Tells p.declarations.roots b.units) ∧
    (∀ root ∈ p.declarations.roots, ∀ n,
      UnitReport.BadName p.world p.config.target root n →
      (∃ path tree, p.config.serializer = some path ∧ readPath path = .ok tree ∧
        n = QualifiedName.simple path) ∨
      ∃ e m path text, p.world.Reaches (.declared root) (.external e) ∧ m ∈ e.methods ∧
        n ∈ m.names ∧ (path, some text) ∈ texts ∧ Manifest.Lists text e) := by
  refine ⟨dryRun_iff p, run_iff p, ?_, ?_⟩
  · rintro b (hb | ⟨t, ht⟩)
    · exact ((dryRun_eq_ok_iff p b).1 hb).imp fun _ _ => UnitReport.tells_ofRoot
    · have hrun : (writeRoots FileTree.disk p p.declarations.roots t).1.map Batch.mk = .ok b := ht
      obtain ⟨units, hunits, rfl⟩ := map_eq_ok.1 hrun
      exact writeRoots_tells p hunits
  · rintro root hroot n ⟨before, after, hneeds, -, hn⟩
    have hmem : .name n ∈ UnitReport.needs p.world p.config.target root := by
      rw [hneeds]
      exact List.mem_append_right _ List.mem_cons_self
    rcases UnitReport.mem_needs hmem with hstruct | ⟨path, hpath, rfl⟩ | ⟨r, m, hr, hm, hnm⟩
    · exact absurd hstruct
        (not_badName_of_declared hsources (List.mem_of_mem_filter hroot) hn).1
    · obtain ⟨tree, htree⟩ := Config.exists_path hvalid hpath
      exact .inl ⟨path, tree, hpath, htree, rfl⟩
    · have hmember := mem_of_reaches hroot hr
      cases r with
      | declared d => exact absurd hnm ((not_badName_of_declared hsources hmember hn).2 m hm)
      | external e =>
        rcases Registry.mem_loadAll hmanifests hmember with he | ⟨path, text, htext, hlists⟩
        · -- the interfaces that come along have no such name
          split at he
          · exact absurd (bundled_names e he m hm n hnm) (Bool.eq_false_iff.1 hn)
          · cases he
        · exact .inr ⟨e, m, path, text, hr, hm, hnm, htext, hlists⟩

/-! Two roots of one source, the second with a value that a serializer has to make text of. The
serializer is a path, and its last part is no name: neither root gets a report. -/

def studioSource : SourceText :=
  ⟨[], none, "#[preferences] trait Lamp \x7b fn is_on(&self) -> bool; \x7d"
    ++ "#[preferences] trait Radio \x7b fn station(&self) -> Station; \x7d"⟩

def studioConfig : Config := { serializer := some "store<text>" }

def studio (ds : Declarations) : Project := ⟨studioConfig, ds, .bundled⟩

/-- What the unit of a root without ancestors is refused for. -/
def plainFault? (p : Project) (root : InterfaceDecl) : Option EmitFault :=
  Need.firstFault? (Emit.unitNeeds p.config.target root
    (({} : Walk).visit p.world (.declared root)))

theorem studio_evaluated :
    ((Declarations.ofSources [studioSource]).toOption.any fun ds =>
      ds.roots.length == 2 && ds.roots.any fun root =>
        root.ancestors.isEmpty
          && plainFault? (studio ds) root == some (.notIdentifier "store<text>")) = true ∧
    studioConfig.validate.isOk = true := by
  decide +kernel

theorem every_root_reported_iff_studio :
    ∃ ds, Declarations.ofSources [studioSource] = .ok ds ∧ ds.roots.length = 2 ∧
      studioConfig.validate = .ok () ∧ ¬∃ b, (studio ds).dryRun = .ok b := by
  obtain ⟨hroots, hvalid⟩ := studio_evaluated
  obtain ⟨u, hu⟩ := exists_of_isOk hvalid
  obtain ⟨ds, hsources⟩ : ∃ ds, Declarations.ofSources [studioSource] = .ok ds := by
    cases h : Declarations.ofSources [studioSource] with
    | ok ds => exact ⟨ds, rfl⟩
    | error e => rw [h] at hroots; cases hroots
  rw [hsources] at hroots
  obtain ⟨hlength, hany⟩ := Bool.and_eq_true_iff.1 (show (_ && _) = true from hroots)
  obtain ⟨root, hroot, hstops⟩ := List.any_eq_true.1 hany
  rw [Bool.and_eq_true, List.isEmpty_iff, beq_iff_eq] at hstops
  have hbatch := (every_root_reported_iff (studio ds) [studioSource] [] hsources rfl hu).1
  refine ⟨ds, hsources, beq_iff_eq.1 hlength, hu, ?_⟩
  rw [hbatch]
  intro hnone
  refine hnone root hroot (.inl ⟨"store<text>", UnitReport.badName_iff.2 ?_⟩)
  have hwalk : Walk.ofRoot (studio ds).world root
      = ({} : Walk).visit (studio ds).world (.declared root) := by
    rw [Walk.ofRoot, hstops.1, Walk.follow]
  rw [UnitReport.needs, hwalk]
  exact hstops.2

end Project

end TypedSettings
