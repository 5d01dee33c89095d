import TypedSettings.Proofs.Project.Batches
import TypedSettings.Proofs.Project.Reports
import TypedSettings.Proofs.Project.Rescan
import TypedSettings.Proofs.Unit.Undeclared

/-!
Running a project again on what a run left. The units that a run wrote among the sources declare
nothing, so the sources declare what they declared, unless a unit took the place of one that
declares something. The same project is opened then, and its units are written as they were.

* `foundAt_again`: every source declares what it declared, and new ones nothing.
* `ofConfig_again`: the same project is opened again.
* `run_again`: a second run makes the same reports and changes no file.
-/

namespace TypedSettings

open FileTree Source

/-- Items that are neither traits nor modules declare nothing. -/
theorem Declarations.ofText_eq_nil {s : SourceText} {trees : List Tree}
    (h : readFile s.text = .ok trees) (hsilent : ∀ t ∈ trees.drop 1, t.Silent) :
    ofText s = .ok [] := by
  rw [ofText, h]
  refine congrArg Except.ok (List.flatMap_eq_nil_iff.2 fun t ht => ?_)
  obtain ⟨htrait, hmod⟩ := hsilent t ht
  dsimp only
  split
  · next hkind =>
    rw [Tree.isKind, hkind] at htrait
    cases htrait
  · next hkind =>
    rw [Tree.isKind, hkind] at hmod
    cases hmod
  · rfl

/-- A unit with a text has code that can be read. -/
theorem GeneratedUnit.exists_trees {g : GeneratedUnit} {text : String} (h : g.text = .ok text) :
    ∃ trees, readTokens Grammar.file g.tokens = .ok trees := by
  unfold GeneratedUnit.text at h
  cases hread : readTokens Grammar.file g.tokens with
  | error pos =>
    rw [hread] at h
    cases h
  | ok trees => exact ⟨trees, rfl⟩

/-! ## New sources -/

namespace SourceFolder

variable {root : FilePath} {t t' : FileTree} {folder : Place} {path : FilePath}

/-- The path of a source ends as its name does. -/
theorem exists_text_of_mem (hpath : path ∈ t.sourcesBelow root) : ∃ a, path = ⟨a ++ ".rs"⟩ := by
  rw [sourcesBelow, sources_eq] at hpath
  split at hpath
  · cases hpath
  · obtain ⟨names, hnames, rfl⟩ := List.mem_map.1 hpath
    have hmem := (List.mergeSort_perm _ _).mem_iff.1 hnames
    exact exists_pathTo (List.mem_filter.1 hmem).2 root

/-- Sources that were there before are found again. -/
theorem mem_sourcesBelow_again (h : Worked t t') (hroot : t.locate root = some folder)
    (hfolder : t.isFolder folder = true) (hpath : path ∈ t.sourcesBelow root) :
    path ∈ t'.sourcesBelow root := by
  obtain ⟨new, happend, -⟩ := h.sourceNames folder
  rw [sourcesBelow, sources_eq, filesBelow_filter hroot] at hpath
  rw [sourcesBelow, sources_eq, filesBelow_filter (h.locate hroot hfolder), happend]
  split at hpath
  · cases hpath
  · next hkeep =>
    rw [if_neg hkeep]
    obtain ⟨names, hnames, rfl⟩ := List.mem_map.1 hpath
    refine List.mem_map_of_mem ((List.mergeSort_perm _ _).mem_iff.2 ?_)
    exact List.mem_append_left _ ((List.mergeSort_perm _ _).mem_iff.1 hnames)

/-- A source that was not there before stands at the place to which its path leads. -/
theorem exists_new_place (h : Worked t t') (hroot : t.locate root = some folder)
    (hfolder : t.isFolder folder = true) (hpath : path ∈ t'.sourcesBelow root)
    (hno : path ∉ t.sourcesBelow root) :
    ∃ p, t'.locate path = some p ∧ IsSourcePlace p ∧ t'.isFile p = true ∧ t.isFile p = false := by
  have hroot' := h.locate hroot hfolder
  obtain ⟨new, happend, hall⟩ := h.sourceNames folder
  rw [sourcesBelow, sources_eq, filesBelow_filter hroot'] at hpath
  rw [sourcesBelow, sources_eq, filesBelow_filter hroot] at hno
  split at hpath
  · cases hpath
  · next hkeep =>
    rw [if_neg hkeep] at hno
    obtain ⟨names, hnames, rfl⟩ := List.mem_map.1 hpath
    have hyes : names ∈ t'.sourceNames folder := (List.mergeSort_perm _ _).mem_iff.1 hnames
    have hnot : names ∉ t.sourceNames folder := fun hold =>
      hno (List.mem_map_of_mem ((List.mergeSort_perm _ _).mem_iff.2 hold))
    rw [happend, List.mem_append] at hyes
    obtain ⟨-, hyes, hplain⟩ := hall names (hyes.resolve_left hnot)
    obtain ⟨hsource, hfile⟩ := mem_sourceNames.1 hyes
    obtain ⟨above, stem, rfl⟩ := exists_stem hsource
    refine ⟨_, locate_pathTo hroot' hsource hplain, ⟨folder ++ above, stem, ?_⟩, hfile, ?_⟩
    · rw [List.append_assoc]
    · exact Bool.eq_false_iff.2 fun hold => hnot (mem_sourceNames.2 ⟨hsource, hold⟩)

end SourceFolder

namespace Project

open UnitReport SourceFolder CommandLine

variable {p : Project}

/-! ## Units among the sources -/

/-- The text of a root's unit reads back as what it was made of: items of the same kinds, in
order. -/
def ReadsBack (p : Project) (root : InterfaceDecl) : Prop :=
  ∀ g trees text, Emit.unit p.config.target root (Walk.ofRoot p.world root) = .ok g →
    readTokens Grammar.file g.tokens = .ok trees → g.text = .ok text →
    ∃ trees', readFile text = .ok trees' ∧ trees'.map Tree.kind? = trees.map Tree.kind?

/-- A unit that reads back declares nothing. -/
theorem ReadsBack.ofText {root : InterfaceDecl} {u : UnitReport} {text : String}
    (h : p.ReadsBack root) (htells : p.Tells root u) (hsource : u.source = some text)
    (module : List String) (file : Option String) :
    Declarations.ofText ⟨module, file, text⟩ = .ok [] := by
  have hrendered : rendered p.world p.config.target root = .ok text := by
    rw [htells.source] at hsource
    cases hresult : rendered p.world p.config.target root with
    | error fault =>
      rw [hresult] at hsource
      cases hsource
    | ok made =>
      rw [hresult] at hsource
      exact congrArg Except.ok (Option.some.inj hsource)
  obtain ⟨g, hunit, hg⟩ := bind_eq_ok.1 hrendered
  obtain ⟨trees, htrees⟩ := GeneratedUnit.exists_trees hg
  obtain ⟨trees', hread, hkinds⟩ := h g trees text hunit htrees hg
  refine Declarations.ofText_eq_nil hread fun t ht => ?_
  have hmem : t.kind? ∈ (trees.drop 1).map Tree.kind? := by
    rw [List.map_drop, ← hkinds, ← List.map_drop]
    exact List.mem_map_of_mem ht
  obtain ⟨s, hs, hsame⟩ := List.mem_map.1 hmem
  have hsilent := GeneratedUnit.items_silent hunit htrees s hs
  rw [Tree.Silent, Tree.isKind, Tree.isKind, hsame] at hsilent
  exact hsilent

/-- What has to read back: the units of the roots whose files are among the sources. -/
def UnitsReadBack (p : Project) (t : FileTree) : Prop :=
  ∀ root ∈ p.declarations.roots, ∀ path ∈ t.sourcesBelow p.config.source,
    t.locate path = some (place (p.config.output.join (Naming.unitPath root.name))) →
    p.ReadsBack root

/-- A source whose place a unit took declares nothing. -/
theorem foundAt_unit {t t' : FileTree} {units : List UnitReport} {path : FilePath} {q : Place}
    (h : writeRoots FileTree.disk p p.declarations.roots t = (.ok units, t'))
    (hback : p.UnitsReadBack t') (hpath : path ∈ t'.sourcesBelow p.config.source)
    (hq : t'.locate path = some q) {u : UnitReport} (hu : u ∈ units) (hat : u.WrittenAt t' q)
    (hcontent : t'.file? q = some u.source) : foundAt p.config.source t' path = .ok [] := by
  obtain ⟨hwritten, hfiles⟩ := writeRoots_written p h
  obtain ⟨root, hroot, htells⟩ :=
    exists_of_forall₂ (writeRoots_tells p (congrArg Prod.fst h)).flip hu
  obtain ⟨file, hfile, hlocate⟩ := hat
  obtain ⟨rfl, hsome, -⟩ := hwritten.paths u hu file hfile
  obtain ⟨text, htext⟩ := Option.isSome_iff_exists.1 hsome
  have hplace : q = place (p.config.output.join (Naming.unitPath root.name)) := by
    rw [eq_place hlocate, hfiles u hu, htells.root]
  have hreads : t'.reads path = some text :=
    reads_eq_some_iff.2 ⟨q, hq, hcontent.trans (congrArg some htext)⟩
  rw [foundAt, hreads]
  exact (hback root hroot path hpath (hq.trans (congrArg some hplace))).ofText htells htext _ _

variable {t t' : FileTree} {units : List UnitReport} {ds : Declarations}

/-- What a project is made of is left as it was: the manifests, and the sources that declare
something. -/
structure Keeps (p : Project) (t t' : FileTree) : Prop where
  manifests : ∀ path ∈ p.config.manifests, t'.reads path = t.reads path
  sources : ∀ path ∈ t.sourcesBelow p.config.source,
    foundAt p.config.source t path ≠ .ok [] → t'.reads path = t.reads path

/-- A source that was there declares what it declared: it is what it was, or a unit took its place
and it declared nothing. -/
theorem foundAt_again (hds : Declarations.ofFolder FileTree.disk p.config.source t = (.ok ds, t))
    (h : writeRoots FileTree.disk p p.declarations.roots t = (.ok units, t'))
    (hkeep : p.Keeps t t') (hback : p.UnitsReadBack t') {path : FilePath}
    (hpath : path ∈ t.sourcesBelow p.config.source) :
    foundAt p.config.source t' path = foundAt p.config.source t path := by
  obtain ⟨⟨folder, hroot, hfolder⟩, hread, -⟩ := ofFolder_eq_ok_iff.1 hds
  have hworked := writeRoots_worked p h
  obtain ⟨hwritten, -⟩ := writeRoots_written p h
  obtain ⟨is, his⟩ := hread path hpath
  obtain ⟨text, htext⟩ := exists_reads his
  obtain ⟨q, hq, hfile⟩ := reads_eq_some_iff.1 htext
  obtain ⟨hsource, hq'⟩ : IsSourcePlace q ∧ t'.locate path = some q := by
    obtain ⟨a, rfl⟩ := exists_text_of_mem hpath
    obtain ⟨dir, last, hplace, -⟩ := exists_places a
    exact ⟨⟨dir, last, (eq_place hq).trans hplace⟩, locate_mono hworked.grows hq⟩
  -- a source that declares something is as it was, so a unit can only have taken another's place
  by_cases hnone : foundAt p.config.source t path = .ok []
  · rw [hnone]
    rcases hwritten.files q hsource with ⟨u, hu, hat, hcontent⟩ | ⟨-, hsame⟩
    · have hpath' := mem_sourcesBelow_again hworked hroot hfolder hpath
      exact foundAt_unit h hback hpath' hq' hu hat hcontent
    · rw [← hnone, foundAt, foundAt, htext, reads_eq_some_iff.2 ⟨q, hq', hsame.trans hfile⟩]
  · rw [foundAt, foundAt, hkeep.sources path hpath hnone]

/-- New sources are units, and declare nothing. -/
theorem foundAt_new (hds : Declarations.ofFolder FileTree.disk p.config.source t = (.ok ds, t))
    (h : writeRoots FileTree.disk p p.declarations.roots t = (.ok units, t'))
    (hback : p.UnitsReadBack t') {path : FilePath} (hpath : path ∈ t'.sourcesBelow p.config.source)
    (hno : path ∉ t.sourcesBelow p.config.source) : foundAt p.config.source t' path = .ok [] := by
  obtain ⟨⟨folder, hroot, hfolder⟩, -, -⟩ := ofFolder_eq_ok_iff.1 hds
  obtain ⟨hwritten, -⟩ := writeRoots_written p h
  obtain ⟨q, hq, hsource, hyes, hnot⟩ :=
    exists_new_place (writeRoots_worked p h) hroot hfolder hpath hno
  rcases hwritten.files q hsource with ⟨u, hu, hat, hcontent⟩ | ⟨-, hsame⟩
  · exact foundAt_unit h hback hpath hq hu hat hcontent
  · rw [isFile, hsame, ← isFile, hnot] at hyes
    cases hyes

/-! ## The second run -/

/-- The registry of a configuration on a tree. -/
def registryOf (config : Config) (t : FileTree) : Except Problem Registry :=
  Registry.loadAll (if config.bundled then .bundled else {})
    (config.manifests.map fun path => (path, t.reads path))

/-- What comes of opening a project; the tree stays. -/
theorem ofConfig_eq (config : Config) (t : FileTree) :
    ofConfig FileTree.disk config t =
      (match config.validate with
        | .error fault => .error (.invalidConfig fault)
        | .ok _ => do
          let declarations ← (Declarations.ofFolder FileTree.disk config.source t).1
          return ⟨config, declarations, ← registryOf config t⟩, t) := by
  unfold ofConfig
  cases config.validate with
  | error fault => rfl
  | ok u =>
    have htree : Declarations.ofFolder FileTree.disk config.source t
        = ((Declarations.ofFolder FileTree.disk config.source t).1, t) := by
      rw [ofFolder_eq]
    dsimp only
    rw [bind_apply, htree]
    dsimp only
    cases (Declarations.ofFolder FileTree.disk config.source t).1 with
    | error e => rfl
    | ok ds =>
      dsimp only
      rw [bind_apply, readAll_eq]
      rfl

theorem ofConfig_eq_ok_iff {config : Config} :
    ofConfig FileTree.disk config t = (.ok p, t) ↔
      (∃ u, config.validate = .ok u) ∧
        Declarations.ofFolder FileTree.disk config.source t = (.ok p.declarations, t) ∧
        registryOf config t = .ok p.registry ∧ p.config = config := by
  have hfolder : Declarations.ofFolder FileTree.disk config.source t = (.ok p.declarations, t) ↔
      (Declarations.ofFolder FileTree.disk config.source t).1 = .ok p.declarations := by
    rw [ofFolder_eq]
    exact ⟨congrArg Prod.fst, fun h => Prod.ext h rfl⟩
  have hfirst (result : Except Problem Project) :
      ((result, t) : Id (_ × FileTree)) = (.ok p, t) ↔ result = .ok p :=
    ⟨congrArg Prod.fst, fun h => Prod.ext h rfl⟩
  rw [ofConfig_eq, hfirst, hfolder]
  obtain ⟨c, ds, registry⟩ := p
  cases config.validate with
  | error fault => simp
  | ok u =>
    dsimp only
    rw [bind_eq_ok]
    constructor
    · rintro ⟨found, hfound, h⟩
      obtain ⟨known, hknown, h⟩ := bind_eq_ok.1 h
      cases h
      exact ⟨⟨u, rfl⟩, hfound, hknown, rfl⟩
    · rintro ⟨-, hfound, hknown, rfl⟩
      exact ⟨ds, hfound, bind_eq_ok.2 ⟨registry, hknown, rfl⟩⟩

/-- The same project is opened again on what a run left. -/
theorem ofConfig_again {config : Config} (hopen : ofConfig FileTree.disk config t = (.ok p, t))
    (h : writeRoots FileTree.disk p p.declarations.roots t = (.ok units, t'))
    (hkeep : p.Keeps t t') (hback : p.UnitsReadBack t') :
    ofConfig FileTree.disk config t' = (.ok p, t') := by
  obtain ⟨hvalid, hds, hregistry, rfl⟩ := ofConfig_eq_ok_iff.1 hopen
  refine ofConfig_eq_ok_iff.2 ⟨hvalid, ?_, ?_, rfl⟩
  · exact ofFolder_again (writeRoots_worked p h) hds
      (fun path => foundAt_again hds h hkeep hback) fun path => foundAt_new hds h hback
  · have hsame : p.config.manifests.map (fun path => (path, t'.reads path))
        = p.config.manifests.map fun path => (path, t.reads path) :=
      List.map_congr_left fun path hpath => by rw [hkeep.manifests path hpath]
    rw [registryOf, hsame]
    exact hregistry

def lampText : String := "#[preferences] trait Lamp \x7b fn is_on(&self) -> bool; \x7d"

/-- What the only source declares. -/
def lampDeclared : Except Problem Declarations :=
  declare ⟨"src"⟩ [(⟨"src/lib.rs"⟩, some lampText)]

def lampConfig (manifest : FilePath) : Config :=
  { output := ⟨"src/target"⟩, manifests := [manifest], bundled := false }

/-- The source, and a manifest without entries. -/
def lampTree (manifest : Place) : FileTree :=
  { files := [(["src", "lib.rs"], some lampText), (manifest, some "")]
    folders := [["src", "target"]] }

def lampPlace : Place := ["src", "target", "lamp_impl.rs"]

/-- What is left when the lamp's unit was written. -/
def lampAfter (manifest : Place) (text : String) : FileTree :=
  (lampTree manifest).insert lampPlace (some text)

theorem lamp_evaluated :
    (match lampDeclared with
      | .ok ds => match ds.roots with
        | [root] =>
          let walk := ({} : Walk).visit ⟨ds, {}, none⟩ (.declared root)
          root.name == "crate::Lamp" && root.ancestors.isEmpty && walk.outcome.problems.isEmpty
            && (Emit.unit {} root walk >>= GeneratedUnit.text).isOk
        | _ => false
      | .error _ => false) = true := by
  decide +kernel

theorem exists_lamp : ∃ ds root text, lampDeclared = .ok ds ∧ ds.roots = [root] ∧
    root.name = "crate::Lamp" ∧ rendered ⟨ds, {}, none⟩ {} root = .ok text ∧
    (Walk.ofRoot ⟨ds, {}, none⟩ root).outcome.problems = [] := by
  have hlamp := lamp_evaluated
  cases hds : lampDeclared with
  | error fault =>
    rw [hds] at hlamp
    cases hlamp
  | ok ds =>
    rw [hds] at hlamp
    dsimp only at hlamp
    split at hlamp
    · next root hroots =>
      simp only [Bool.and_eq_true, beq_iff_eq, List.isEmpty_iff] at hlamp
      obtain ⟨⟨⟨hname, hnone⟩, hproblems⟩, hok⟩ := hlamp
      have hwalk : Walk.ofRoot ⟨ds, {}, none⟩ root
          = ({} : Walk).visit ⟨ds, {}, none⟩ (.declared root) := by
        rw [Walk.ofRoot, hnone, Walk.follow]
      rw [← hwalk] at hok hproblems
      obtain ⟨text, htext⟩ := exists_of_isOk hok
      exact ⟨ds, root, text, rfl, hroots, hname, htext, hproblems⟩
    · cases hlamp

/-- The lamp's file is free, or holds what may be replaced. -/
theorem replace_lamp {manifest : Place} (h : manifest = ["lamps.toml"] ∨ manifest = lampPlace)
    (text : String) :
    FileTree.disk.replace ⟨"src/target/lamp_impl" ++ ".rs"⟩ text (lampTree manifest)
      = (.ok (), lampAfter manifest text) := by
  have hfolder : (FilePath.folder ⟨"src/target/lamp_impl" ++ ".rs"⟩).components
      = [.normal "src", .normal "target"] := by decide +kernel
  have hplace : place ⟨"src/target/lamp_impl" ++ ".rs"⟩ = lampPlace := by decide +kernel
  have htemp : place (Disk.temporary ⟨"src/target/lamp_impl" ++ ".rs"⟩)
      = ["src", "target", "lamp_impl.rs.tmp"] := by decide +kernel
  have hopen : Open (lampTree manifest) [] [.normal "src", .normal "target"] := by
    rcases h with rfl | rfl
    · exact ⟨⟨trivial, by decide +kernel⟩, by decide +kernel⟩
    · exact ⟨⟨trivial, by decide +kernel⟩, by decide +kernel⟩
  rw [← hfolder] at hopen
  rw [replace_eq hopen, hplace, htemp]
  rcases h with rfl | rfl
  · rw [if_neg (by decide +kernel), if_neg (by decide +kernel), erase_eq_self (by decide +kernel)]
    rfl
  · rw [if_neg (by decide +kernel), if_neg (by decide +kernel), erase_eq_self (by decide +kernel)]
    rfl

/-- The lamp's project is opened, and its unit is written. -/
theorem run_lamp {manifest : FilePath} {at' : Place}
    (h : manifest = ⟨"lamps.toml"⟩ ∧ at' = ["lamps.toml"] ∨
      manifest = ⟨"src/target/lamp_impl.rs"⟩ ∧ at' = lampPlace) :
    ∃ p u text, ofConfig FileTree.disk (lampConfig manifest) (lampTree at')
        = (.ok p, lampTree at') ∧
      p.run FileTree.disk (lampTree at') = (.ok ⟨[u]⟩, lampAfter at' text) ∧
      u.written = some ⟨"src/target/lamp_impl.rs"⟩ ∧
      (∀ root ∈ p.declarations.roots, root.name = "crate::Lamp") ∧
      ∃ g : GeneratedUnit, g.text = .ok text := by
  obtain ⟨ds, root, text, hds, hroots, hname, htext, hproblems⟩ := exists_lamp
  have hat : at' = ["lamps.toml"] ∨ at' = lampPlace := h.imp And.right And.right
  have hsources : (lampTree at').sourcesBelow ⟨"src"⟩ = [⟨"src/lib.rs"⟩] ∧
      ((lampTree at').locate ⟨"src"⟩).any (lampTree at').isFolder = true ∧
      (lampTree at').reads ⟨"src/lib.rs"⟩ = some lampText := by
    rcases hat with rfl | rfl
    · decide +kernel
    · decide +kernel
  have hregistry : registryOf (lampConfig manifest) (lampTree at') = .ok {} := by
    rcases h with ⟨rfl, rfl⟩ | ⟨rfl, rfl⟩
    · rfl
    · rfl
  have hopen : ofConfig FileTree.disk (lampConfig manifest) (lampTree at')
      = (.ok ⟨lampConfig manifest, ds, {}⟩, lampTree at') := by
    refine ofConfig_eq_ok_iff.2 ⟨⟨(), rfl⟩, ?_, hregistry, rfl⟩
    rw [ofFolder_eq, show (lampConfig manifest).source = ⟨"src"⟩ from rfl, if_pos hsources.2.1,
      hsources.1, List.map_singleton, hsources.2.2]
    exact Prod.ext hds rfl
  have hreport : report ⟨lampConfig manifest, ds, {}⟩ root
      = .ok (ofRendering root (Walk.ofRoot ⟨ds, {}, none⟩ root) (.ok text)) := by
    rcases ofRoot_cases ⟨ds, {}, none⟩ {} root with ⟨fault, hfault, -⟩ | ⟨-, hroot⟩
    · cases htext.symm.trans hfault
    · rw [htext] at hroot
      exact hroot
  have hcomplete : (ofRendering root (Walk.ofRoot ⟨ds, {}, none⟩ root) (.ok text)).isComplete
      = true := by
    rw [(consistent_ofRendering _ _ _).complete_iff, ofRendering, hproblems]
    simp [Diagnostic.isError, Diagnostic.severity]
  have hpath : (lampConfig manifest).output.join (Naming.unitPath root.name)
      = ⟨"src/target/lamp_impl" ++ ".rs"⟩ := by
    rw [hname]
    show FilePath.join ⟨"src/target"⟩ (Naming.unitPath "crate::Lamp") = _
    decide +kernel
  refine ⟨_, (ofRendering root (Walk.ofRoot ⟨ds, {}, none⟩ root) (.ok text)).noteWriting
    ⟨"src/target/lamp_impl.rs"⟩ (.ok ()), text, hopen, ?_, rfl, ?_, ?_⟩
  · rw [run_eq,
      show (Project.declarations ⟨lampConfig manifest, ds, {}⟩).roots = [root] from hroots,
      writeRoots_cons _ hreport, write_eq_replace hcomplete rfl]
    show (Except.map _ _, _) = _
    rw [show (ofRendering root (Walk.ofRoot ⟨ds, {}, none⟩ root) (.ok text)).file
      = Naming.unitPath root.name from rfl, hpath, replace_lamp hat]
    rfl
  · simpa only [hroots, List.forall_mem_singleton] using hname
  · obtain ⟨g, -, hg⟩ := bind_eq_ok.1 htext
    exact ⟨g, hg⟩

/-- The text of a unit is no manifest: it starts with a comment. -/
theorem loadAll_unit {g : GeneratedUnit} {text : String} (h : g.text = .ok text)
    (r : Registry) (path : FilePath) : r.loadAll [(path, some text)]
      = .error (.invalidManifest path.text .malformed) := by
  obtain ⟨code, rfl⟩ : ∃ code, text = GeneratedUnit.notice ++ "\n\n" ++ code := by
    obtain ⟨trees, htrees⟩ := GeneratedUnit.exists_trees h
    unfold GeneratedUnit.text at h
    rw [htrees] at h
    dsimp only at h
    split at h
    · cases h
      exact ⟨_, rfl⟩
    · cases h
  have hnone : Text.Toml.read? (GeneratedUnit.notice ++ "\n\n" ++ code) = none := by
    unfold Text.Toml.read?
    rw [String.toList_append, String.toList_append, GeneratedUnit.notice]
    rfl
  rw [Registry.loadAll, Registry.load, Manifest.read?, hnone]
  rfl

end Project

end TypedSettings
