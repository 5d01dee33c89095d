import TypedSettings.Proofs.Interface.Traits
import TypedSettings.Proofs.Project.SourceFiles

/-!
Scanning a folder of sources. A folder declares what the sources below it declare, in the order in
which they are scanned; of declarations with one name the first holds. A folder that is itself
called like one that is left out declares nothing; otherwise the path to it is told with the places
of what is declared, and changes nothing else.

* `FileTree.IsTree`: files and folders as they lie on a disk.
* `FileTree.DeclaresAt`: what a source below a folder declares.
* `Declarations.FirstOfEach`: the declarations that are kept.
* `SourceFolder.ofFolder_scanned`: what a folder of sources declares.
-/

namespace TypedSettings

open Source

/-! ## Sources of a tree -/

namespace FileTree

open SourceFolder

/-- Files and folders as they lie on a disk without links: a file has one place, to which names
lead, and no file lies in a file. -/
structure IsTree (t : FileTree) : Prop where
  nodup : t.filePlaces.Nodup
  plain : ∀ p, t.isFile p = true → ∀ n ∈ p, FilePath.IsPlain n
  apart : ∀ p, t.isFile p = true → t.isFolder p = false

/-- A source lies below a folder. -/
def HasSource (t : FileTree) (folder : Place) (names : List String) : Prop :=
  NamesSource names ∧ t.isFile (folder ++ names) = true

/-- A source below a folder declares the interfaces that stand in its text, in the module that the
source holds. -/
def DeclaresAt (t : FileTree) (folder : Place) (names : List String)
    (found : List InterfaceDecl) : Prop :=
  ∃ module text trees, StandsFor names module ∧ t.file? (folder ++ names) = some (some text) ∧
    readFile text = .ok trees ∧
    Declarations.Lists (Scope.ofItems module (trees.drop 1)) (trees.drop 1) found

variable {t : FileTree} {folder : Place}

theorem mem_sourceNames_iff {names : List String} :
    names ∈ t.sourceNames folder ↔ t.HasSource folder names := by
  rw [mem_sourceNames, isSource_iff]
  rfl

theorem IsTree.plain_names (ht : t.IsTree) {names : List String} (h : t.HasSource folder names) :
    ∀ n ∈ names, FilePath.IsPlain n :=
  fun n hn => ht.plain _ h.2 n (List.mem_append_right _ hn)

/-- No source lies in another. -/
theorem IsTree.eq_of_isPrefix (ht : t.IsTree) {a b : List String} (ha : t.HasSource folder a)
    (hb : t.HasSource folder b) (hpre : a <+: b) : a = b := by
  by_contra hne
  refine absurd (ht.apart _ ha.2) (Bool.not_eq_false _ ▸ ?_)
  refine isFolder_iff.2 (.inr (.inr ⟨folder ++ b, hb.2, ?_, fun h => ?_⟩))
  · exact (List.prefix_append_right_inj folder).2 hpre
  · exact hne (List.append_cancel_left h)

theorem IsTree.nodup_sourceNames (ht : t.IsTree) (folder : Place) :
    (t.sourceNames folder).Nodup := by
  refine List.Nodup.map_on (fun p hp q hq heq => ?_) (ht.nodup.filter _)
  have hbelow {p : Place} (hp : p ∈ t.filePlaces.filter (isSourceBelow folder)) :
      folder ++ p.drop folder.length = p := by
    have hpre := (List.mem_filter.1 hp).2
    rw [isSourceBelow, Bool.and_eq_true, List.isPrefixOf_iff_prefix] at hpre
    obtain ⟨rest, rfl⟩ := hpre.1
    rw [List.drop_left]
  rw [← hbelow hp, ← hbelow hq, heq]

/-- The sources below a folder come out in the order in which they are scanned. -/
theorem IsTree.pairwise_sort (ht : t.IsTree) (folder : Place) :
    (sort (t.sourceNames folder)).Pairwise ScannedBefore :=
  SourceFolder.pairwise_sort (ht.nodup_sourceNames folder) fun _ ha _ hb =>
    ht.eq_of_isPrefix (mem_sourceNames_iff.1 ha) (mem_sourceNames_iff.1 hb)

/-- What lies below a folder decides in which order the sources are scanned. -/
theorem IsTree.sort_congr {t' : FileTree} {folder' : Place} (ht : t.IsTree) (ht' : t'.IsTree)
    (h : ∀ names, t'.file? (folder' ++ names) = t.file? (folder ++ names)) :
    sort (t'.sourceNames folder') = sort (t.sourceNames folder) := by
  refine List.Pairwise.eq_of_mem_iff ((ht'.pairwise_sort folder').imp ScannedBefore.lt)
    ((ht.pairwise_sort folder).imp ScannedBefore.lt) fun names => ?_
  rw [sort, sort, List.mem_mergeSort, List.mem_mergeSort, mem_sourceNames_iff, mem_sourceNames_iff,
    HasSource, HasSource, isFile, isFile, h]

end FileTree

/-! ## Declarations that are kept -/

/-- Of the declarations that were found, the first of each name is kept, in order. -/
structure Declarations.FirstOfEach (ds : Declarations) (found : List InterfaceDecl) : Prop where
  sublist : ds.interfaces.Sublist found
  distinct : ds.Distinct
  get? : ∀ name, ds.get? name = found.find? fun i => i.name == name

theorem Declarations.firstOfEach_foldl_insert (found : List InterfaceDecl) :
    FirstOfEach (found.foldl insert {}) found where
  sublist := sublist_foldl_insert {} found
  distinct := Distinct.foldl_insert (d := {}) List.nodup_nil found
  get? name := get?_foldl_insert {} found name

/-- Where something is found something is kept. -/
theorem Declarations.FirstOfEach.eq_nil_iff {ds : Declarations} {found : List InterfaceDecl}
    (h : ds.FirstOfEach found) : ds.interfaces = [] ↔ found = [] := by
  constructor
  · intro hnone
    cases found with
    | nil => rfl
    | cons i found =>
      have hfind : (i :: found).find? (fun j => j.name == i.name) = some i :=
        List.find?_cons_of_pos (by simp)
      have hkept := (h.get? i.name).trans hfind
      rw [Declarations.get?, hnone] at hkept
      cases hkept
  · intro hnone
    exact List.sublist_nil.1 (hnone ▸ h.sublist)

/-! ## Scanning -/

namespace SourceFolder

open FileTree

/-- A path to a folder that is called like one that is left out. -/
def LeftOut (root : FilePath) : Prop :=
  root.fileName? = some "target" ∨ root.fileName? = some ".git"

instance (root : FilePath) : Decidable (LeftOut root) := inferInstanceAs (Decidable (_ ∨ _))

theorem any_fileName?_iff {root : FilePath} :
    root.fileName?.any excludedNames.contains = true ↔ LeftOut root := by
  unfold LeftOut
  cases root.fileName? with
  | none => simp
  | some name => simp [excludedNames]

/-- The sources that are scanned, when a folder with these sources is. -/
def scanned (root : FilePath) (listing : List (List String)) : List (List String) :=
  if LeftOut root then [] else listing

/-- The declarations that are kept of what was found at sources, told with the paths to these. -/
def kept (root : FilePath) (listing : List (List String))
    (found : List String → List InterfaceDecl) : Declarations :=
  (listing.flatMap fun names =>
    (found names).map (InterfaceDecl.inFile (some (pathTo root names).text))).foldl
      Declarations.insert {}

theorem kept_firstOfEach (root : FilePath) (listing : List (List String))
    (found : List String → List InterfaceDecl) :
    (kept root listing found).FirstOfEach (listing.flatMap fun names =>
      (found names).map (InterfaceDecl.inFile (some (pathTo root names).text))) :=
  Declarations.firstOfEach_foldl_insert _

theorem kept_eq_nil_iff (root : FilePath) {listing : List (List String)}
    {found : List String → List InterfaceDecl} :
    (kept root listing found).interfaces = [] ↔ ∀ names ∈ listing, found names = [] := by
  rw [(kept_firstOfEach root listing found).eq_nil_iff, List.flatMap_eq_nil_iff]
  simp only [List.map_eq_nil_iff]

/-- Without files, the path to a folder makes no difference. -/
theorem kept_inFile (root : FilePath) (listing : List (List String))
    (found : List String → List InterfaceDecl) :
    (⟨(kept root listing found).interfaces.map (InterfaceDecl.inFile none)⟩ : Declarations) =
      ((listing.flatMap found).map (InterfaceDecl.inFile none)).foldl Declarations.insert {} := by
  have hsame (names : List String) :
      ((found names).map (InterfaceDecl.inFile (some (pathTo root names).text))).map
        (InterfaceDecl.inFile none) = (found names).map (InterfaceDecl.inFile none) := by
    rw [List.map_map]
    exact List.map_congr_left fun d _ => d.inFile_inFile none _
  unfold kept
  rw [← Declarations.foldl_insert_map (InterfaceDecl.inFile_name none), List.map_flatMap,
    List.map_flatMap]
  simp only [hsame]
  rfl

variable {t : FileTree} {root : FilePath} {folder : Place}

/-- A source below a folder declares what stands in its text. -/
theorem foundAt_pathTo (ht : t.IsTree) (hroot : t.locate root = some folder)
    {names : List String} (hsource : t.HasSource folder names) {text : String} {trees : List Tree}
    {ds : List InterfaceDecl} {module : List String}
    (hmodule : Naming.moduleOfFile root (pathTo root names) = module)
    (htext : t.file? (folder ++ names) = some (some text)) (htrees : readFile text = .ok trees)
    (hds : Declarations.Lists (Scope.ofItems module (trees.drop 1)) (trees.drop 1) ds) :
    foundAt root t (pathTo root names)
      = .ok (ds.map (InterfaceDecl.inFile (some (pathTo root names).text))) := by
  have hplain := ht.plain_names hsource
  have hreads : t.reads (pathTo root names) = some text :=
    reads_eq_some_iff.2 ⟨_, locate_pathTo hroot (isSource_iff.2 hsource.1) hplain, htext⟩
  unfold foundAt
  rw [hreads]
  exact Declarations.ofText_eq_ok_iff.2 ⟨trees, ds, htrees, hmodule ▸ hds, rfl⟩

/-- A folder of sources keeps what its sources declare. -/
theorem ofFolder_kept (hroot : t.locate root = some folder) (hfolder : t.isFolder folder = true)
    {found : List String → List InterfaceDecl}
    (hfound : ∀ names, t.HasSource folder names → foundAt root t (pathTo root names)
      = .ok ((found names).map (InterfaceDecl.inFile (some (pathTo root names).text)))) :
    Declarations.ofFolder FileTree.disk root t =
      (.ok (kept root (scanned root (sort (t.sourceNames folder))) found), t) := by
  have hpaths : t.sourcesBelow root
      = (scanned root (sort (t.sourceNames folder))).map (pathTo root) := by
    rw [sourcesBelow, sources_eq, filesBelow_filter hroot, scanned]
    simp only [any_fileName?_iff]
    split
    · rfl
    · rfl
  have hmem : ∀ names ∈ scanned root (sort (t.sourceNames folder)),
      t.HasSource folder names := by
    intro names hnames
    unfold scanned at hnames
    split at hnames
    · exact absurd hnames List.not_mem_nil
    · exact mem_sourceNames_iff.1 (List.mem_mergeSort.1 hnames)
  rw [ofFolder_eq_ok_iff, hpaths, kept, List.flatMap_map]
  refine ⟨⟨folder, hroot, hfolder⟩, ?_, congrArg (List.foldl Declarations.insert {}) ?_⟩
  · rw [List.forall_mem_map]
    exact fun names hnames => ⟨_, hfound names (hmem names hnames)⟩
  · refine List.flatMap_congr fun names hnames => ?_
    rw [hfound names (hmem names hnames)]
    rfl

/-- Of what the sources of a folder declare, the first of each name is kept exactly when the folder
is not left out, or nothing is declared. -/
theorem kept_scanned_iff {root : FilePath} {listing : List (List String)}
    {found : List String → List InterfaceDecl} :
    (kept root (scanned root listing) found).FirstOfEach (listing.flatMap fun names =>
        (found names).map (InterfaceDecl.inFile (some (pathTo root names).text))) ↔
      ¬LeftOut root ∨ ∀ names ∈ listing, found names = [] := by
  by_cases hleft : LeftOut root
  · rw [scanned, if_pos hleft, or_iff_right (not_not_intro hleft), ← kept_eq_nil_iff root]
    have hnone : (kept root [] found).interfaces = [] := rfl
    constructor
    · intro h
      exact (kept_firstOfEach root listing found).eq_nil_iff.2 (h.eq_nil_iff.1 hnone)
    · intro h
      rw [(kept_firstOfEach root listing found).eq_nil_iff.1 h]
      exact Declarations.firstOfEach_foldl_insert []
  · rw [scanned, if_neg hleft]
    exact iff_of_true (kept_firstOfEach root listing found) (.inl hleft)

/-- Two paths to folders with the same sources differ, but for the files of places, exactly when one
of the folders is left out and the other is not, and something is declared. -/
theorem kept_scanned_congr_iff {root root' : FilePath} {listing : List (List String)}
    {found : List String → List InterfaceDecl} :
    (kept root' (scanned root' listing) found).interfaces.map (InterfaceDecl.inFile none)
        = (kept root (scanned root listing) found).interfaces.map (InterfaceDecl.inFile none) ↔
      (LeftOut root' ↔ LeftOut root) ∨ ∀ names ∈ listing, found names = [] := by
  have hsame (root : FilePath) (listing : List (List String)) :
      (kept root listing found).interfaces.map (InterfaceDecl.inFile none) =
        (((listing.flatMap found).map (InterfaceDecl.inFile none)).foldl
          Declarations.insert {}).interfaces :=
    congrArg Declarations.interfaces (kept_inFile root listing found)
  have hnone (root : FilePath) :
      (kept root [] found).interfaces.map (InterfaceDecl.inFile none) = [] := rfl
  by_cases hleft' : LeftOut root'
  · by_cases hleft : LeftOut root
    · rw [scanned, scanned, if_pos hleft', if_pos hleft, hnone, hnone]
      exact iff_of_true rfl (.inl (iff_of_true hleft' hleft))
    · have hdiffer : ¬(LeftOut root' ↔ LeftOut root) := fun h => hleft (h.1 hleft')
      rw [scanned, scanned, if_pos hleft', if_neg hleft, hnone, eq_comm, List.map_eq_nil_iff,
        kept_eq_nil_iff, or_iff_right hdiffer]
  · by_cases hleft : LeftOut root
    · have hdiffer : ¬(LeftOut root' ↔ LeftOut root) := fun h => hleft' (h.2 hleft)
      rw [scanned, scanned, if_neg hleft', if_pos hleft, hnone, List.map_eq_nil_iff,
        kept_eq_nil_iff, or_iff_right hdiffer]
    · rw [scanned, scanned, if_neg hleft', if_neg hleft, hsame, hsame]
      exact iff_of_true rfl (.inl (iff_of_false hleft' hleft))

/-- Where every source below a folder can be read, the folder declares what they declare: the
sources are scanned deep first and by the bytes of their names, and the first declaration of a name
holds. That is so unless the folder is itself called like one that is left out: then it declares
nothing. Apart from that the path to the folder makes no difference, except in the files of
places. -/
theorem ofFolder_scanned (ht : t.IsTree) (hroot : t.locate root = some folder)
    (hfolder : t.isFolder folder = true)
    (hread : ∀ names, t.HasSource folder names → ∃ text trees,
      t.file? (folder ++ names) = some (some text) ∧ readFile text = .ok trees) :
    ∃ (listing : List (List String)) (found : List String → List InterfaceDecl)
        (ds : Declarations),
      ((∀ names, names ∈ listing ↔ t.HasSource folder names) ∧ listing.Pairwise ScannedBefore) ∧
      (∀ names ∈ listing, t.DeclaresAt folder names (found names)) ∧
      Declarations.ofFolder FileTree.disk root t = (.ok ds, t) ∧
      (LeftOut root → ds.interfaces = []) ∧
      (ds.FirstOfEach (listing.flatMap fun names =>
          (found names).map (InterfaceDecl.inFile (some (pathTo root names).text))) ↔
        ¬LeftOut root ∨ ∀ names ∈ listing, found names = []) ∧
      ∀ t' root' folder', t'.IsTree → t'.locate root' = some folder' →
        t'.isFolder folder' = true →
        (∀ names, t'.file? (folder' ++ names) = t.file? (folder ++ names)) →
        ∃ ds', Declarations.ofFolder FileTree.disk root' t' = (.ok ds', t') ∧
          (ds'.interfaces.map (InterfaceDecl.inFile none)
              = ds.interfaces.map (InterfaceDecl.inFile none) ↔
            (LeftOut root' ↔ LeftOut root) ∨ ∀ names ∈ listing, found names = []) := by
  have hdeclared : ∀ names, t.HasSource folder names → ∃ found text trees,
      t.file? (folder ++ names) = some (some text) ∧ readFile text = .ok trees ∧
      Declarations.Lists
        (Scope.ofItems (Naming.moduleOfFile root (pathTo root names)) (trees.drop 1))
        (trees.drop 1) found := by
    intro names hsource
    obtain ⟨text, trees, htext, htrees⟩ := hread names hsource
    exact ⟨_, text, trees, htext, htrees, Declarations.lists_ofItemsFuel (readFile_headed htrees)
      (Nat.lt_succ_self _)⟩
  choose! found text trees htext htrees hlists using hdeclared
  have hlisting : ∀ names, names ∈ sort (t.sourceNames folder) ↔ t.HasSource folder names := by
    intro names
    rw [sort, List.mem_mergeSort, mem_sourceNames_iff]
  have hkept := ofFolder_kept hroot hfolder fun names hsource =>
    foundAt_pathTo ht hroot hsource rfl (htext names hsource) (htrees names hsource)
      (hlists names hsource)
  refine ⟨sort (t.sourceNames folder), found, _, ⟨hlisting, ht.pairwise_sort folder⟩, ?_, hkept, ?_,
    kept_scanned_iff, ?_⟩
  · intro names hnames
    have hsource := (hlisting names).1 hnames
    exact ⟨_, _, _, standsFor_moduleOfFile root hsource.1 (ht.plain_names hsource),
      htext names hsource, htrees names hsource, hlists names hsource⟩
  · intro hleft
    rw [scanned, if_pos hleft]
    rfl
  · intro t' root' folder' ht' hroot' hfolder' hsame
    have hback {names : List String} (h : t'.HasSource folder' names) :
        t.HasSource folder names := by
      rwa [HasSource, isFile, hsame] at h
    -- a source below the other folder holds the same module, and so declares the same
    have hkept' := ofFolder_kept hroot' hfolder' fun names hsource =>
      foundAt_pathTo ht' hroot' hsource
        (moduleOfFile_congr root root' hsource.1 (ht'.plain_names hsource))
        ((hsame names).trans (htext names (hback hsource))) (htrees names (hback hsource))
        (hlists names (hback hsource))
    rw [ht.sort_congr ht' hsame] at hkept'
    exact ⟨_, hkept', kept_scanned_congr_iff⟩

/-! A folder of sources in which a name is declared twice, and a folder in it that is left out when
the sources around it are scanned, and declares nothing when it is scanned itself. -/

def shelf : FileTree where
  files :=
    [(["src", "radio.rs"], some "pub trait Tuner { fn later(&self); }"),
      (["src", "lib.rs"], some "pub trait Knob {} pub mod inner { pub trait Dial {} }"),
      (["src", "radio", "mod.rs"], some "pub trait Tuner {}"),
      (["src", "target", "lib.rs"], some "pub trait Spare {}")]

theorem shelf_isTree : shelf.IsTree := by
  have hplain : ∀ p ∈ shelf.filePlaces, ∀ n ∈ p, n ≠ "" ∧ n ≠ "." ∧ n ≠ ".." ∧ '/' ∉ n.toList := by
    decide
  have hapart : ∀ p ∈ shelf.filePlaces, shelf.isFolder p = false := by decide
  refine ⟨by decide, fun p hp n hn => ?_, fun p hp => hapart p (isFile_iff_mem.1 hp)⟩
  obtain ⟨hempty, hcurrent, hparent, hslash⟩ := hplain p (isFile_iff_mem.1 hp) n hn
  exact ⟨hempty, hcurrent, hparent, hslash⟩

theorem shelf_readable (folder names : List String) (h : shelf.HasSource folder names) :
    ∃ text trees, shelf.file? (folder ++ names) = some (some text) ∧ readFile text = .ok trees := by
  have hall : ∀ p ∈ shelf.filePlaces,
      ((shelf.file? p).join.any fun text => (readFile text).isOk) = true := by decide +kernel
  obtain ⟨text, htext, hok⟩ := (Option.any_eq_true _ _).1 (hall _ (isFile_iff_mem.1 h.2))
  obtain ⟨trees, htrees⟩ := exists_of_isOk hok
  exact ⟨text, trees, Option.join_eq_some_iff.1 htext, htrees⟩

theorem shelf_sources : shelf.sourcesBelow ⟨"src"⟩
    = [⟨"src/lib.rs"⟩, ⟨"src/radio/mod.rs"⟩, ⟨"src/radio.rs"⟩] := by
  have hfound : shelf.sourceNames ["src"] = [["radio.rs"], ["lib.rs"], ["radio", "mod.rs"]] := by
    decide
  have hfirst : (["lib.rs"] : List String) < ["radio.rs"] := by decide
  have hsecond : (["radio", "mod.rs"] : List String) < ["radio.rs"] := by decide
  have hthird : (["lib.rs"] : List String) ≤ ["radio", "mod.rs"] := by decide
  have hsort : sort (shelf.sourceNames ["src"])
      = [["lib.rs"], ["radio", "mod.rs"], ["radio.rs"]] := by
    rw [hfound, sort]
    simp [List.mergeSort, hfirst, hsecond, hthird]
  have hroot : shelf.locate ⟨"src"⟩ = some ["src"] := by decide
  rw [sourcesBelow, sources_eq, filesBelow_filter hroot, hsort]
  decide

theorem ofFolder_scanned_shelf :
    (∃ ds, Declarations.ofFolder FileTree.disk ⟨"src"⟩ shelf = (.ok ds, shelf) ∧
      ds.interfaces.map InterfaceDecl.name
        = ["crate::Knob", "crate::inner::Dial", "crate::radio::Tuner"] ∧
      ds.interfaces.map (fun d => d.methods.length) = [0, 0, 0]) ∧
    ∃ ds, Declarations.ofFolder FileTree.disk ⟨"src/target"⟩ shelf = (.ok ds, shelf) ∧
      ds.interfaces = [] ∧ shelf.HasSource ["src", "target"] ["lib.rs"] := by
  have hsrc : (Declarations.ofFolder FileTree.disk ⟨"src"⟩ shelf).1.toOption.map
      (fun ds => (ds.interfaces.map InterfaceDecl.name,
        ds.interfaces.map fun d => d.methods.length))
      = some (["crate::Knob", "crate::inner::Dial", "crate::radio::Tuner"], [0, 0, 0]) := by
    rw [ofFolder_eq, shelf_sources]
    decide +kernel
  have hroot : shelf.locate ⟨"src"⟩ = some ["src"] := by decide
  have hinner : shelf.locate ⟨"src/target"⟩ = some ["src", "target"] := by decide
  constructor
  · obtain ⟨listing, found, ds, -, -, hds, -⟩ :=
      ofFolder_scanned shelf_isTree hroot (by decide) (shelf_readable ["src"])
    rw [hds] at hsrc
    have hnames := Prod.mk.inj (Option.some.inj hsrc)
    exact ⟨ds, hds, hnames.1, hnames.2⟩
  · obtain ⟨listing, found, ds, -, -, hds, hleft, -⟩ :=
      ofFolder_scanned shelf_isTree hinner (by decide) (shelf_readable ["src", "target"])
    exact ⟨ds, hds, hleft (by decide), ⟨[], "lib", rfl, by decide, nofun, nofun⟩, by decide⟩

end SourceFolder

end TypedSettings
