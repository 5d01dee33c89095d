import Mathlib.Data.List.Sort
import Mathlib.Data.String.Basic
import Mathlib.Logic.Relation
import TypedSettings.Proofs.Interface.Found
import TypedSettings.Proofs.Project.Rewriting

/-!
Reading the sources again after units were written. The sources are found as before, and after them,
in their order, the units that were written among them. Sources that declare what they declared,
and units that declare nothing, make the same declarations.

* `writeRoots_worked`: a run replaces sources, one after the other.
* `Worked.filePlaces`: where new files stand after sources were replaced.
* `sort_append`: where new names come in the order of names.
* `declare_eq_ok_iff`: what the sources of a folder declare.
* `ofFolder_again`: when a folder of sources declares what it declared.
-/

namespace TypedSettings

open FileTree

/-! ## Sources that were replaced -/

namespace FileTree

/-- Sources were replaced, one after the other. -/
def Worked : FileTree → FileTree → Prop :=
  Relation.ReflTransGen fun t t' => ∃ a : String, ReplaceStep t t' ⟨a ++ ".rs"⟩

variable {t t' : FileTree}

theorem Worked.grows (h : Worked t t') : t.Grows t' := by
  induction h with
  | refl => exact fun _ hw => hw
  | tail _ hstep ih =>
    obtain ⟨a, hstep⟩ := hstep
    exact ih.trans hstep.grows

/-- No folder becomes a file. -/
theorem Worked.isFile_of_isFolder (h : Worked t t') {w : Place} (hfolder : t.isFolder w = true)
    (hfile : t'.isFile w = true) : t.isFile w = true := by
  induction h with
  | refl => exact hfile
  | tail hbefore hstep ih =>
    obtain ⟨a, hstep⟩ := hstep
    rcases hstep.files w hfile with hold | ⟨-, hno⟩
    · exact ih hold
    · exact absurd ( Worked.grows hbefore w hfolder) (Bool.eq_false_iff.1 hno)

/-- Places of interest, where no new text is written first, stay in order, and new ones follow. -/
theorem Worked.filePlaces (h : Worked t t') {P : Place → Bool}
    (hP : ∀ a : String, P (place (Disk.temporary ⟨a ++ ".rs"⟩)) = false) :
    ∃ new, t'.filePlaces.filter P = t.filePlaces.filter P ++ new ∧
      ∀ w ∈ new, P w = true ∧ t.isFile w = false ∧ ∃ a : String, w = place ⟨a ++ ".rs"⟩ := by
  induction h with
  | refl => exact ⟨[], (List.append_nil _).symm, fun _ h => nomatch h⟩
  | @tail made last _ hstep ih =>
    obtain ⟨a, hstep⟩ := hstep
    obtain ⟨new, hnew, hall⟩ := ih
    obtain ⟨later, hlater, hplace⟩ := hstep.places P (hP a)
    refine ⟨new ++ later, by rw [hlater, hnew, List.append_assoc], fun w hw => ?_⟩
    rcases List.mem_append.1 hw with hw | hw
    · exact hall w hw
    · obtain ⟨rfl, hno⟩ := hplace w hw
      have hinterest : P (place ⟨a ++ ".rs"⟩) = true :=
        (List.mem_filter.1 (hlater ▸ List.mem_append_right _ hw)).2
      refine ⟨hinterest, Bool.eq_false_iff.2 fun hold => ?_, a, rfl⟩
      -- a place of interest that held a file holds one still
      have hstill : place ⟨a ++ ".rs"⟩ ∈ made.filePlaces.filter P := by
        rw [hnew]
        exact List.mem_append_left _ (List.mem_filter.2 ⟨isFile_iff_mem.1 hold, hinterest⟩)
      exact absurd (isFile_iff_mem.2 (List.mem_filter.1 hstill).1) (Bool.eq_false_iff.1 hno)

/-- A path to a folder leads there still. -/
theorem Worked.locate (h : Worked t t') {path : FilePath} {p : Place}
    (hp : t.locate path = some p) (hfolder : t.isFolder p = true) : t'.locate path = some p := by
  rw [locate_eq_some_iff] at hp ⊢
  refine ⟨hp.1, follow_mono h.grows hp.2.1, fun ⟨hslash, hfile⟩ => hp.2.2 ⟨hslash, ?_⟩⟩
  exact h.isFile_of_isFolder hfolder hfile

end FileTree

namespace Project

open UnitReport

/-- A run replaces sources, one after the other. -/
theorem writeRoots_worked (p : Project) {roots : List InterfaceDecl} {t t' : FileTree}
    {units : List UnitReport} (h : writeRoots FileTree.disk p roots t = (.ok units, t')) :
    Worked t t' := by
  refine writeRoots_induct p (motive := fun _ t _ t' => Worked t t') (fun t => .refl) ?_ h
  rintro root roots t t' u units hreport - hrest
  obtain ⟨-, hfile, -⟩ := ofRoot_fresh hreport
  obtain ⟨a, ha⟩ := Naming.unitPath_eq u.root
  rcases write_step (hfile.trans ha) p.config.output t with hsame | ⟨-, -, hstep⟩
  · rwa [hsame] at hrest
  · obtain ⟨b, hb⟩ := FilePath.join_append p.config.output a ".rs"
    rw [hfile.trans ha, hb] at hstep
    exact .head ⟨b, hstep⟩ hrest

end Project

/-! ## Names of sources -/

namespace FilePath

theorem splitName_eq_rs {n : String} (h : (splitName n).2 = some "rs") :
    ∃ stem, n = stem ++ ".rs" := by
  unfold splitName at h
  split at h
  · cases h
  · dsimp only at h
    have hsplit := List.takeWhile_append_dropWhile (p := (· ≠ '.')) (l := n.toList.reverse)
    have hdot := List.head?_dropWhile_not (fun c : Char => decide (c ≠ '.')) n.toList.reverse
    split at h
    · cases h
    · cases h
    · next c stem hstem hdrop =>
      rw [hdrop] at hsplit hdot
      have hc : c = '.' := by simpa using hdot
      have hext : n.toList.reverse.takeWhile (fun c : Char => decide (c ≠ '.')) = ['s', 'r'] := by
        have := congrArg String.toList (Option.some.inj h)
        rw [String.toList_ofList] at this
        exact List.reverse_eq_iff.1 this
      refine ⟨String.ofList stem.reverse, String.toList_inj.1 ?_⟩
      rw [String.toList_append, String.toList_ofList, ← List.reverse_inj, ← hsplit, hext, hc]
      simp

end FilePath

namespace SourceFolder

/-- The path to a source below a folder. -/
def pathTo (root : FilePath) (names : List String) : FilePath :=
  names.foldl (fun dir name => dir.join ⟨name⟩) root

/-- Names in their order. -/
def sort (names : List (List String)) : List (List String) :=
  names.mergeSort fun a b => !decide (b < a)

theorem sources_eq {root : FilePath} {below : List (List String)} :
    sources root below = if root.fileName?.any excludedNames.contains then []
      else (sort (below.filter isSource)).map (pathTo root) := rfl

theorem exists_stem {names : List String} (h : isSource names = true) :
    ∃ above stem, names = above ++ [stem ++ ".rs"] := by
  rw [isSource, Bool.and_eq_true, beq_iff_eq] at h
  obtain ⟨n, hlast, hn⟩ := Option.bind_eq_some_iff.1 h.2
  obtain ⟨above, rfl⟩ := List.getLast?_eq_some_iff.1 hlast
  obtain ⟨stem, rfl⟩ := FilePath.splitName_eq_rs hn
  exact ⟨above, stem, rfl⟩

/-- The path to a source ends as its name does. -/
theorem exists_pathTo {names : List String} (h : isSource names = true) (root : FilePath) :
    ∃ a, pathTo root names = ⟨a ++ ".rs"⟩ := by
  obtain ⟨above, stem, rfl⟩ := exists_stem h
  rw [pathTo, List.foldl_append]
  exact FilePath.join_append _ stem ".rs"

theorem components_pathTo (root : FilePath) {names : List String}
    (h : ∀ n ∈ names, FilePath.IsPlain n) :
    (pathTo root names).components = root.components ++ names.map .normal := by
  induction names generalizing root with
  | nil => exact (List.append_nil _).symm
  | cons n names ih =>
    rw [List.forall_mem_cons] at h
    have hone : FilePath.ofNames [n] = ⟨n⟩ := by
      show FilePath.join ⟨""⟩ ⟨n⟩ = _
      rw [FilePath.join, if_neg (by simp [FilePath.isAbsolute_eq_false h.1.no_slash]),
        if_pos (.inl rfl), String.empty_append]
    have hfirst : (root.join ⟨n⟩).components = root.components ++ [.normal n] := by
      rw [← hone]
      exact FilePath.components_join root (by simpa using h.1)
    show (pathTo (root.join ⟨n⟩) names).components = _
    rw [ih _ h.2, hfirst, List.append_assoc]
    rfl

/-- No name comes before one that follows it. -/
theorem pairwise_sort_not_lt (names : List (List String)) :
    (sort names).Pairwise fun a b => (!decide (b < a)) = true := by
  have htrans : ∀ a b c : List String, (!decide (b < a)) = true → (!decide (c < b)) = true →
      (!decide (c < a)) = true := by
    simp only [Bool.not_eq_true', decide_eq_false_iff_not]
    exact fun a b c => List.le_trans
  have htotal : ∀ a b : List String, (!decide (b < a) || !decide (a < b)) = true := by
    simp only [Bool.or_eq_true, Bool.not_eq_true', decide_eq_false_iff_not]
    exact fun a b => List.le_total a b
  exact List.pairwise_mergeSort htrans htotal names

/-- New names that come last are put in order among the others, which keep theirs. -/
theorem sort_append {names new : List (List String)} (h : ∀ n ∈ new, n ∉ names) :
    (sort (names ++ new)).filter (fun n => decide (n ∉ new)) = sort names := by
  refine @List.Perm.eq_of_pairwise _ (fun a b => (!decide (b < a)) = true) _ _ ?_ ?_ ?_ ?_
  · simp only [Bool.not_eq_true', decide_eq_false_iff_not]
    exact fun a b _ _ => List.le_antisymm
  · exact (pairwise_sort_not_lt _).filter _
  · exact pairwise_sort_not_lt _
  · refine (List.Perm.filter _ (List.mergeSort_perm _ _)).trans ?_
    have hkeep : (names ++ new).filter (fun n => decide (n ∉ new)) = names := by
      rw [List.filter_append, List.filter_eq_self.2, List.filter_eq_nil_iff.2, List.append_nil]
      · intro n hn
        simpa using hn
      · intro n hn
        rw [decide_eq_true_eq]
        exact fun hnew => h n hnew hn
    rw [hkeep]
    exact (List.mergeSort_perm _ _).symm

end SourceFolder

/-! ## Sources below a folder -/

namespace FileTree

/-- A path leads to what it reads. -/
def reads (t : FileTree) (path : FilePath) : Option String := (FileTree.disk.read path t).1

/-- The paths of the sources below a folder. -/
def sourcesBelow (t : FileTree) (root : FilePath) : List FilePath :=
  SourceFolder.sources root (FileTree.disk.filesBelow root t).1

/-- Whether a source below a folder has its place here. -/
def isSourceBelow (folder p : Place) : Bool :=
  folder.isPrefixOf p && SourceFolder.isSource (p.drop folder.length)

/-- The names of the sources below a folder, as they are found. -/
def sourceNames (t : FileTree) (folder : Place) : List (List String) :=
  (t.filePlaces.filter (isSourceBelow folder)).map fun p => p.drop folder.length

theorem filesBelow_filter {t : FileTree} {root : FilePath} {folder : Place}
    (h : t.locate root = some folder) :
    (FileTree.disk.filesBelow root t).1.filter SourceFolder.isSource = t.sourceNames folder := by
  have hbelow : (FileTree.disk.filesBelow root t).1 = t.filePlaces.filterMap fun p =>
      if folder.isPrefixOf p then some (p.drop folder.length) else none := by
    unfold FileTree.disk
    dsimp only
    rw [h, filePlaces, List.filterMap_map]
    rfl
  rw [hbelow, sourceNames]
  generalize t.filePlaces = ps
  induction ps with
  | nil => rfl
  | cons p ps ih =>
    by_cases hpre : folder <+: p
    · by_cases hsource : SourceFolder.isSource (p.drop folder.length) = true
      · simpa [isSourceBelow, hpre, hsource] using ih
      · simpa [isSourceBelow, hpre, hsource] using ih
    · simpa [isSourceBelow, hpre] using ih

theorem mem_sourceNames {t : FileTree} {folder : Place} {names : List String} :
    names ∈ t.sourceNames folder ↔
      SourceFolder.isSource names = true ∧ t.isFile (folder ++ names) = true := by
  rw [isFile_iff_mem]
  constructor
  · intro h
    obtain ⟨p, hp, rfl⟩ := List.mem_map.1 h
    obtain ⟨hmem, hbelow⟩ := List.mem_filter.1 hp
    rw [isSourceBelow, Bool.and_eq_true, List.isPrefixOf_iff_prefix] at hbelow
    obtain ⟨⟨rest, rfl⟩, hsource⟩ := hbelow
    rw [List.drop_left] at hsource ⊢
    exact ⟨hsource, hmem⟩
  · rintro ⟨hsource, hmem⟩
    refine List.mem_map.2 ⟨folder ++ names, List.mem_filter.2 ⟨hmem, ?_⟩, List.drop_left⟩
    rw [isSourceBelow, List.drop_left, hsource, Bool.and_true, List.isPrefixOf_iff_prefix]
    exact List.prefix_append _ _

/-- What is read stands at the place to which the path leads. -/
theorem reads_eq_some_iff {t : FileTree} {path : FilePath} {text : String} :
    t.reads path = some text ↔ ∃ p, t.locate path = some p ∧ t.file? p = some (some text) := by
  show ((t.locate path).bind t.file?).join = some text ↔ _
  rw [Option.join_eq_some_iff, Option.bind_eq_some_iff]

/-- No source is written first where a source has its place. -/
theorem isSourceBelow_temporary (folder : Place) (a : String) :
    isSourceBelow folder (place (Disk.temporary ⟨a ++ ".rs"⟩)) = false := by
  obtain ⟨dir, last, -, htemp, -⟩ := exists_places a
  rw [htemp, isSourceBelow, Bool.and_eq_false_iff, or_iff_not_imp_left]
  intro hpre
  rw [Bool.not_eq_false, List.isPrefixOf_iff_prefix] at hpre
  obtain ⟨rest, hrest⟩ := hpre
  rw [← hrest, List.drop_left]
  refine Bool.eq_false_iff.2 fun hsource => ?_
  obtain ⟨above, stem, rfl⟩ := SourceFolder.exists_stem hsource
  refine not_isSourcePlace dir last ⟨folder ++ above, stem, ?_⟩
  rw [← hrest, List.append_assoc]

/-- After sources were replaced, the sources below a folder are found as before, and new ones, which
have the places of sources that were replaced. -/
theorem Worked.sourceNames {t t' : FileTree} (h : Worked t t') (folder : Place) :
    ∃ new, t'.sourceNames folder = t.sourceNames folder ++ new ∧
      ∀ names ∈ new, names ∉ t.sourceNames folder ∧ names ∈ t'.sourceNames folder ∧
        ∀ n ∈ names, FilePath.IsPlain n := by
  obtain ⟨places, hplaces, hnew⟩ := h.filePlaces (isSourceBelow_temporary folder)
  have happend : t'.sourceNames folder
      = t.sourceNames folder ++ places.map fun p => p.drop folder.length := by
    rw [FileTree.sourceNames, hplaces, List.map_append]
    rfl
  refine ⟨_, happend, fun names hnames => ?_⟩
  obtain ⟨p, hp, rfl⟩ := List.mem_map.1 hnames
  obtain ⟨hbelow, hno, a, rfl⟩ := hnew p hp
  refine ⟨fun hold => ?_, happend ▸ List.mem_append_right _ hnames, fun n hn => ?_⟩
  · rw [isSourceBelow, Bool.and_eq_true, List.isPrefixOf_iff_prefix] at hbelow
    obtain ⟨rest, hrest⟩ := hbelow.1
    have hfile := (mem_sourceNames.1 hold).2
    rw [← hrest, List.drop_left, hrest] at hfile
    exact absurd hfile (Bool.eq_false_iff.1 hno)
  · exact isPlain_of_mem_place (List.mem_of_mem_drop hn)

/-- A path of plain names below a folder leads to the place that they name. -/
theorem locate_pathTo {t : FileTree} {root : FilePath} {folder : Place} {names : List String}
    (hroot : t.locate root = some folder) (hsource : SourceFolder.isSource names = true)
    (hplain : ∀ n ∈ names, FilePath.IsPlain n) :
    t.locate (SourceFolder.pathTo root names) = some (folder ++ names) := by
  obtain ⟨a, ha⟩ := SourceFolder.exists_pathTo hsource root
  rw [locate_eq (SourceFolder.components_pathTo root hplain), (locate_eq_some_iff.1 hroot).2.1]
  · rfl
  · rw [ha]
    exact fun h => absurd (congrArg String.length h) (by simp)
  · rw [ha, String.toList_append]
    simp

end FileTree

/-! ## Declarations of a folder -/

namespace SourceFolder

/-- What a source below a folder declares. -/
def foundAt (root : FilePath) (t : FileTree) (path : FilePath) :
    Except Problem (List InterfaceDecl) :=
  match t.reads path with
  | none => .error (.unreadable path.text .system)
  | some text => Declarations.ofText ⟨Naming.moduleOfFile root path, some path.text, text⟩

theorem exists_reads {root : FilePath} {t : FileTree} {path : FilePath}
    {is : List InterfaceDecl} (h : foundAt root t path = .ok is) :
    ∃ text, t.reads path = some text := by
  unfold foundAt at h
  split at h
  · cases h
  · next text htext => exact ⟨text, htext⟩

/-- A folder declares what its sources declare, in order, where all of them can be read. -/
theorem declare_eq_ok_iff {root : FilePath} {t : FileTree} {paths : List FilePath}
    {ds : Declarations} :
    declare root (paths.map fun path => (path, t.reads path)) = .ok ds ↔
      (∀ path ∈ paths, ∃ is, foundAt root t path = .ok is) ∧
        ds = (paths.flatMap fun path => (foundAt root t path).toOption.getD []).foldl
          Declarations.insert {} := by
  rw [← Declarations.foldlM_insert_eq_ok_iff, declare, List.foldlM_map]
  refine iff_of_eq (congrArg (· = Except.ok ds) ?_)
  congr 1
  funext d path
  unfold foundAt
  cases t.reads path <;> rfl

end SourceFolder

namespace FileTree

theorem readAll_eq (paths : List FilePath) (t : FileTree) :
    FileTree.disk.readAll paths t = (paths.map fun path => (path, t.reads path), t) := by
  unfold Disk.readAll
  induction paths with
  | nil => rfl
  | cons path paths ih =>
    rw [List.mapM_cons]
    let reading : FilePath → StateM FileTree (FilePath × Option String) := fun path => do
      return (path, ← FileTree.disk.read path)
    show ((path, t.reads path) :: (paths.mapM reading t).1, (paths.mapM reading t).2) = _
    rw [ih]
    rfl

end FileTree

namespace SourceFolder

theorem ofFolder_eq (root : FilePath) (t : FileTree) :
    Declarations.ofFolder FileTree.disk root t =
      (if (t.locate root).any t.isFolder then
          declare root ((t.sourcesBelow root).map fun path => (path, t.reads path))
        else .error (.unreadable root.text .noSourceDirectory), t) := by
  unfold Declarations.ofFolder
  show (if (t.locate root).any t.isFolder then _ else _ : StateM FileTree _) t = _
  split
  · show (declare root (FileTree.disk.readAll (t.sourcesBelow root) t).1,
      (FileTree.disk.readAll (t.sourcesBelow root) t).2) = _
    rw [readAll_eq]
  · rfl

theorem ofFolder_eq_ok_iff {root : FilePath} {t : FileTree} {ds : Declarations} :
    Declarations.ofFolder FileTree.disk root t = (.ok ds, t) ↔
      (∃ folder, t.locate root = some folder ∧ t.isFolder folder = true) ∧
      (∀ path ∈ t.sourcesBelow root, ∃ is, foundAt root t path = .ok is) ∧
      ds = ((t.sourcesBelow root).flatMap fun path =>
        (foundAt root t path).toOption.getD []).foldl Declarations.insert {} := by
  rw [ofFolder_eq, Prod.mk.injEq, and_iff_left rfl, ← declare_eq_ok_iff]
  have hany : (t.locate root).any t.isFolder = true ↔
      ∃ folder, t.locate root = some folder ∧ t.isFolder folder = true := by
    cases t.locate root <;> simp
  rw [← hany]
  split
  · next hfolder => rw [and_iff_right hfolder]
  · next hno => exact iff_of_false nofun fun h => hno h.1

/-- New sources that declare nothing change nothing. -/
theorem flatMap_sources_again {root : FilePath} {t t' : FileTree} {folder : Place}
    {f g : FilePath → List InterfaceDecl} (h : Worked t t') (hroot : t.locate root = some folder)
    (hroot' : t'.locate root = some folder) (hold : ∀ path ∈ t.sourcesBelow root, g path = f path)
    (hnew : ∀ names, pathTo root names ∈ t'.sourcesBelow root → names ∈ t'.sourceNames folder →
      names ∉ t.sourceNames folder → (∀ n ∈ names, FilePath.IsPlain n) →
      g (pathTo root names) = []) :
    (t'.sourcesBelow root).flatMap g = (t.sourcesBelow root).flatMap f := by
  obtain ⟨new, happend, hall⟩ := h.sourceNames folder
  rw [sourcesBelow, sources_eq, filesBelow_filter hroot'] at *
  rw [sourcesBelow, sources_eq, filesBelow_filter hroot] at *
  split
  · rfl
  · next hkeep =>
    rw [if_neg hkeep] at hold hnew
    have hnone : ∀ names ∈ sort (t'.sourceNames folder), decide (names ∉ new) = false →
        g (pathTo root names) = [] := by
      intro names hnames hin
      obtain ⟨hno, hyes, hplain⟩ := hall names (by simpa using hin)
      exact hnew names (List.mem_map_of_mem hnames) hyes hno hplain
    rw [List.flatMap_map, List.flatMap_map, ← flatMap_filter_eq hnone, happend,
      sort_append fun names hnames => (hall names hnames).1]
    exact List.flatMap_congr fun names hnames => hold _ (List.mem_map_of_mem hnames)

/-- A folder of sources declares what it declared, after sources were replaced, if the sources that
it had declare what they declared and the new ones nothing. -/
theorem ofFolder_again {root : FilePath} {t t' : FileTree} {ds : Declarations} (h : Worked t t')
    (hds : Declarations.ofFolder FileTree.disk root t = (.ok ds, t))
    (hold : ∀ path ∈ t.sourcesBelow root, foundAt root t' path = foundAt root t path)
    (hnew : ∀ path ∈ t'.sourcesBelow root, path ∉ t.sourcesBelow root →
      foundAt root t' path = .ok []) :
    Declarations.ofFolder FileTree.disk root t' = (.ok ds, t') := by
  rw [ofFolder_eq_ok_iff] at hds ⊢
  obtain ⟨⟨folder, hroot, hfolder⟩, hread, rfl⟩ := hds
  have hroot' := h.locate hroot hfolder
  refine ⟨⟨folder, hroot', h.grows folder hfolder⟩, fun path hpath => ?_, ?_⟩
  · by_cases hfound : path ∈ t.sourcesBelow root
    · rw [hold path hfound]
      exact hread path hfound
    · exact ⟨[], hnew path hpath hfound⟩
  · refine congrArg (List.foldl Declarations.insert {}) (Eq.symm ?_)
    refine flatMap_sources_again h hroot hroot' (fun path hpath => ?_) ?_
    · rw [hold path hpath]
    · intro names hpath hyes hno hplain
      obtain ⟨hsource, -⟩ := mem_sourceNames.1 hyes
      rw [hnew _ hpath fun hfound => hno ?_]
      · rfl
      -- what was read before stood at the place of the names
      obtain ⟨is, his⟩ := hread _ hfound
      obtain ⟨text, htext⟩ := exists_reads his
      obtain ⟨p, hp, hfile⟩ := reads_eq_some_iff.1 htext
      cases hp.symm.trans (locate_pathTo hroot hsource hplain)
      rw [mem_sourceNames, isFile, hfile]
      exact ⟨hsource, rfl⟩

end SourceFolder

end TypedSettings
