import TypedSettings.Proofs.Project.Rescan
import TypedSettings.Proofs.Text.Bytes

/-!
The sources below a folder: which files they are, what module each of them holds, and in what order
they are found. None of this depends on the path to the folder.

* `NamesSource`: a file that is no other than a source; `isSource_iff`.
* `StandsFor`: the module that a source holds; `standsFor_moduleOfFile`.
* `ScannedBefore`: the order of a walk through folders, deep first; `pairwise_sort`.
-/

namespace TypedSettings

/-! ## Sources -/

theorem FilePath.splitName_rs {stem : String} (h : stem ≠ "") :
    splitName (stem ++ ".rs") = (stem, some "rs") := by
  have hchars : (stem ++ ".rs").toList.reverse = 's' :: 'r' :: '.' :: stem.toList.reverse := by
    simp
  have hno : stem ++ ".rs" ≠ ".." := by
    intro heq
    rw [heq] at hchars
    exact absurd hchars (by simp)
  obtain ⟨c, cs, hstem⟩ : ∃ c cs, stem.toList.reverse = c :: cs :=
    List.exists_cons_of_ne_nil fun hnil => h (by simpa using hnil)
  unfold splitName
  rw [if_neg hno]
  dsimp only
  rw [hchars, hstem]
  have hsuffix : ('s' :: 'r' :: '.' :: c :: cs).dropWhile (· ≠ '.') = '.' :: c :: cs := rfl
  have hext : ('s' :: 'r' :: '.' :: c :: cs).takeWhile (· ≠ '.') = ['s', 'r'] := rfl
  rw [hsuffix, hext]
  show (String.ofList (c :: cs).reverse, some "rs") = (stem, some "rs")
  rw [← hstem, List.reverse_reverse, String.ofList_toList]

namespace SourceFolder

/-- The names that lead to a source: to a file with the ending `.rs`, through no folder that is left
out. -/
def NamesSource (names : List String) : Prop :=
  ∃ dirs stem, names = dirs ++ [stem ++ ".rs"] ∧ stem ≠ "" ∧ "target" ∉ dirs ∧ ".git" ∉ dirs

theorem any_excluded_iff {dirs : List String} :
    dirs.any excludedNames.contains = true ↔ ¬("target" ∉ dirs ∧ ".git" ∉ dirs) := by
  rw [List.any_eq_true, not_and_or, not_not, not_not]
  simp only [excludedNames, List.contains_iff_mem, List.mem_cons, List.not_mem_nil, or_false]
  constructor
  · rintro ⟨name, hname, rfl | rfl⟩
    · exact .inl hname
    · exact .inr hname
  · rintro (h | h)
    · exact ⟨_, h, .inl rfl⟩
    · exact ⟨_, h, .inr rfl⟩

theorem isSource_iff {names : List String} : isSource names = true ↔ NamesSource names := by
  constructor
  · intro h
    obtain ⟨dirs, stem, rfl⟩ := exists_stem h
    rw [isSource, Bool.and_eq_true, List.dropLast_concat, List.getLast?_concat] at h
    obtain ⟨hdirs, hext⟩ := h
    refine ⟨dirs, stem, rfl, ?_, ?_⟩
    · rintro rfl
      exact absurd hext (by decide)
    · rw [Bool.not_eq_true', ← Bool.not_eq_true, any_excluded_iff, not_not] at hdirs
      exact hdirs
  · rintro ⟨dirs, stem, rfl, hstem, hdirs⟩
    rw [isSource, List.dropLast_concat, List.getLast?_concat, Option.bind_some,
      FilePath.splitName_rs hstem]
    rw [Bool.and_eq_true, Bool.not_eq_true', ← Bool.not_eq_true, any_excluded_iff, not_not]
    exact ⟨hdirs, rfl⟩

/-! ## Modules -/

/-- The module that a source holds, by the names that lead to it: `lib.rs` and `main.rs` at the top
are the crate itself, `mod.rs` is the module of its folder, and any other file is a module of its
own. -/
inductive StandsFor : List String → List String → Prop
  | lib : StandsFor ["lib.rs"] []
  | main : StandsFor ["main.rs"] []
  | folder {dirs : List String} : StandsFor (dirs ++ ["mod.rs"]) dirs
  | file {dirs : List String} {stem : String} : stem ≠ "mod" →
      (dirs = [] → stem ≠ "lib" ∧ stem ≠ "main") →
      StandsFor (dirs ++ [stem ++ ".rs"]) (dirs ++ [stem])

theorem below?_append (above below : List Component) :
    FilePath.below? above (above ++ below) = some below := by
  induction above with
  | nil => rfl
  | cons c above ih =>
    rw [List.cons_append, FilePath.below?, if_pos rfl]
    exact ih

/-- The path to a folder is no part of a module. -/
theorem moduleOfFile_eq {root file : FilePath} {dirs : List String} {stem : String} (h : stem ≠ "")
    (hfile : file.components = root.components ++ (dirs ++ [stem ++ ".rs"]).map .normal) :
    Naming.moduleOfFile root file =
      if stem = "mod" ∨ (dirs = [] ∧ (stem = "lib" ∨ stem = "main")) then dirs
      else dirs ++ [stem] := by
  have hdirs : (dirs.map Component.normal).map Component.text = dirs := by
    rw [List.map_map]
    exact List.map_id _
  unfold Naming.moduleOfFile
  rw [hfile, below?_append, Option.getD_some, List.map_append, List.map_singleton]
  simp only [List.getLast?_concat, List.dropLast_concat, FilePath.splitName_rs h, hdirs,
    List.isEmpty_iff]

theorem moduleOfFile_pathTo (root : FilePath) {dirs : List String} {stem : String} (h : stem ≠ "")
    (hplain : ∀ n ∈ dirs ++ [stem ++ ".rs"], FilePath.IsPlain n) :
    Naming.moduleOfFile root (pathTo root (dirs ++ [stem ++ ".rs"])) =
      if stem = "mod" ∨ (dirs = [] ∧ (stem = "lib" ∨ stem = "main")) then dirs
      else dirs ++ [stem] :=
  moduleOfFile_eq h (components_pathTo root hplain)

theorem standsFor_moduleOfFile (root : FilePath) {names : List String} (h : NamesSource names)
    (hplain : ∀ n ∈ names, FilePath.IsPlain n) :
    StandsFor names (Naming.moduleOfFile root (pathTo root names)) := by
  obtain ⟨dirs, stem, rfl, hstem, -⟩ := h
  rw [moduleOfFile_pathTo root hstem hplain]
  split
  · next hcase =>
    rcases hcase with rfl | ⟨rfl, rfl | rfl⟩
    · exact .folder
    · exact .lib
    · exact .main
  · next hcase =>
    rw [not_or, not_and, not_or] at hcase
    exact .file hcase.1 hcase.2

/-- A source holds one module, whatever the path to the folder. -/
theorem moduleOfFile_congr (root root' : FilePath) {names : List String} (h : NamesSource names)
    (hplain : ∀ n ∈ names, FilePath.IsPlain n) :
    Naming.moduleOfFile root' (pathTo root' names)
      = Naming.moduleOfFile root (pathTo root names) := by
  obtain ⟨dirs, stem, rfl, hstem, -⟩ := h
  rw [moduleOfFile_pathTo root hstem hplain, moduleOfFile_pathTo root' hstem hplain]

/-! ## The order of sources -/

/-- One file is scanned before another: where the ways to them part, its name comes first in the
order of bytes. -/
def ScannedBefore (a b : List String) : Prop :=
  ∃ common x y as bs, a = common ++ x :: as ∧ b = common ++ y :: bs ∧ Text.bytes x < Text.bytes y

theorem ScannedBefore.lt {a b : List String} (h : ScannedBefore a b) : a < b := by
  obtain ⟨common, x, y, as, bs, rfl, rfl, hlt⟩ := h
  exact List.append_left_lt (List.cons_lt_cons_iff.2 (.inl (Text.bytes_lt_iff.1 hlt)))

/-- The ways to two files part somewhere, unless one leads through the other. -/
theorem scannedBefore_or {a b : List String} (hab : ¬a <+: b) (hba : ¬b <+: a) :
    ScannedBefore a b ∨ ScannedBefore b a := by
  induction a generalizing b with
  | nil => exact absurd List.nil_prefix hab
  | cons x as ih =>
    cases b with
    | nil => exact absurd List.nil_prefix hba
    | cons y bs =>
      rcases lt_trichotomy x y with hlt | rfl | hgt
      · exact .inl ⟨[], x, y, as, bs, rfl, rfl, Text.bytes_lt_iff.2 hlt⟩
      · rw [List.prefix_cons_inj] at hab hba
        rcases ih hab hba with ⟨common, x', y', as', bs', rfl, rfl, hlt⟩ |
          ⟨common, x', y', as', bs', rfl, rfl, hlt⟩
        · exact .inl ⟨x :: common, x', y', as', bs', rfl, rfl, hlt⟩
        · exact .inr ⟨x :: common, x', y', as', bs', rfl, rfl, hlt⟩
      · exact .inr ⟨[], y, x, bs, as, rfl, rfl, Text.bytes_lt_iff.2 hgt⟩

/-- Files that do not lie in one another come out in the order in which they are scanned. -/
theorem pairwise_sort {names : List (List String)} (hnodup : names.Nodup)
    (hapart : ∀ a ∈ names, ∀ b ∈ names, a <+: b → a = b) :
    (sort names).Pairwise ScannedBefore := by
  have hmem {a : List String} (h : a ∈ sort names) : a ∈ names := List.mem_mergeSort.1 h
  have hne : (sort names).Nodup := (List.mergeSort_perm _ _).nodup_iff.2 hnodup
  refine ((pairwise_sort_not_lt names).and hne).imp_of_mem fun {a b} ha hb ⟨hle, hne⟩ => ?_
  have hab : ¬a <+: b := fun hpre => hne (hapart a (hmem ha) b (hmem hb) hpre)
  have hba : ¬b <+: a := fun hpre => hne (hapart b (hmem hb) a (hmem ha) hpre).symm
  rcases scannedBefore_or hab hba with h | h
  · exact h
  · simp [h.lt] at hle

end SourceFolder

end TypedSettings
