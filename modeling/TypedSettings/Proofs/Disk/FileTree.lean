import TypedSettings.FileTree
import TypedSettings.Proofs.Disk.Path

/-!
File trees under change. A change says what one file holds afterwards and leaves the others alone;
and no folder is lost, so that a path that leads somewhere leads there ever after.

* `file?_insert`, `file?_erase`: what files hold after a change.
* `locate_mono`: a path leads where it led before.
* `replace_frame`: a file that is replaced holds its new text, and no file that is named like it
  changes.
-/

namespace TypedSettings

namespace FileTree

/-! ## Files -/

theorem isFile_iff {t : FileTree} {p : Place} : t.isFile p = true ↔ ∃ f ∈ t.files, f.1 = p := by
  rw [isFile, file?, Option.isSome_map, List.find?_isSome]
  simp only [beq_iff_eq]

theorem file?_eq_none {t : FileTree} {p : Place} (h : t.isFile p = false) : t.file? p = none := by
  rwa [isFile, Option.isSome_eq_false_iff, Option.isNone_iff_eq_none] at h

theorem find?_update (files : List (Place × Option String)) (p q : Place)
    (content : Option String) :
    (files.map fun f => if f.1 = p then (p, content) else f).find? (fun f => f.1 == q)
      = (files.find? fun f => f.1 == q).map fun f => if q = p then (p, content) else f := by
  induction files with
  | nil => rfl
  | cons g files ih =>
    rw [List.map_cons]
    by_cases hq : g.1 = q
    · have hown : (if g.1 = p then (p, content) else g).1 = q := by
        split
        · next hp => rw [← hp, hq]
        · exact hq
      rw [List.find?_cons_of_pos (by simpa using hown), List.find?_cons_of_pos (by simpa using hq),
        hq]
      rfl
    · have hother : (if g.1 = p then (p, content) else g).1 ≠ q := by
        split
        · next hp => rwa [← hp]
        · exact hq
      rw [List.find?_cons_of_neg (by simpa using hother),
        List.find?_cons_of_neg (by simpa using hq), ih]

theorem file?_insert (t : FileTree) (p q : Place) (content : Option String) :
    (t.insert p content).file? q = if q = p then some content else t.file? q := by
  unfold insert
  by_cases hp : t.isFile p = true
  · rw [if_pos hp]
    show Option.map Prod.snd (List.find? _ (t.files.map _)) = _
    rw [find?_update]
    by_cases hq : q = p
    · obtain ⟨f, hf⟩ := Option.isSome_iff_exists.1 (Option.isSome_map.symm.trans hp)
      rw [if_pos hq, hq, hf]
      simp
    · simp only [if_neg hq]
      rw [Option.map_id']
      rfl
  · rw [if_neg hp]
    show Option.map Prod.snd (List.find? _ (t.files ++ [(p, content)])) = _
    rw [List.find?_append, Option.map_or]
    by_cases hq : q = p
    · rw [if_pos hq, hq, show Option.map Prod.snd _ = none from file?_eq_none (by simpa using hp)]
      simp
    · rw [if_neg hq, List.find?_cons_of_neg (by simpa using Ne.symm hq)]
      exact Option.or_none

theorem file?_erase (t : FileTree) (p q : Place) :
    (t.erase p).file? q = if q = p then none else t.file? q := by
  show Option.map Prod.snd (List.find? _ (t.files.filter _)) = _
  rw [List.find?_filter]
  by_cases hq : q = p
  · rw [if_pos hq, Option.map_eq_none_iff, List.find?_eq_none]
    rintro f - hf
    simp [hq] at hf
  · rw [if_neg hq]
    congr 2
    funext f
    by_cases hf : f.1 = q
    · simp [hf, hq]
    · simp [hf]

/-! ## Folders -/

theorem isFolder_iff {t : FileTree} {p : Place} :
    t.isFolder p = true ↔
      p = [] ∨ (∃ q ∈ t.folders, p <+: q) ∨ ∃ q, t.isFile q = true ∧ p <+: q ∧ p ≠ q := by
  have hfiles : (∃ f ∈ t.files, p <+: f.1 ∧ p ≠ f.1) ↔
      ∃ q, t.isFile q = true ∧ p <+: q ∧ p ≠ q := by
    simp only [isFile_iff]
    constructor
    · rintro ⟨f, hf, hp⟩
      exact ⟨f.1, ⟨f, hf, rfl⟩, hp⟩
    · rintro ⟨-, ⟨f, hf, rfl⟩, hp⟩
      exact ⟨f, hf, hp⟩
  rw [← hfiles]
  simp [isFolder, List.any_eq_true, or_assoc]

theorem isFolder_of_isPrefix {t : FileTree} {p q : Place} (hpq : p <+: q)
    (hq : t.isFolder q = true) : t.isFolder p = true := by
  rw [isFolder_iff] at hq ⊢
  rcases hq with rfl | ⟨f, hf, hqf⟩ | ⟨f, hf, hqf, hne⟩
  · exact .inl (List.prefix_nil.1 hpq)
  · exact .inr (.inl ⟨f, hf, hpq.trans hqf⟩)
  · refine .inr (.inr ⟨f, hf, hpq.trans hqf, ?_⟩)
    rintro rfl
    exact hne (hqf.eq_of_length_le hpq.length_le)

theorem isFolder_of_isFile {t : FileTree} {dir : Place} {name : String}
    (h : t.isFile (dir ++ [name]) = true) : t.isFolder dir = true :=
  isFolder_iff.2 (.inr (.inr ⟨_, h, List.prefix_append _ _, by simp⟩))

theorem isFile_insert (t : FileTree) (p q : Place) (content : Option String) :
    (t.insert p content).isFile q = true ↔ q = p ∨ t.isFile q = true := by
  rw [isFile, file?_insert, isFile]
  by_cases hq : q = p
  · simp [hq]
  · simp [hq]

theorem isFile_erase (t : FileTree) (p q : Place) :
    (t.erase p).isFile q = true ↔ q ≠ p ∧ t.isFile q = true := by
  rw [isFile, file?_erase, isFile]
  by_cases hq : q = p
  · simp [hq]
  · simp [hq]

theorem isFolder_erase {t : FileTree} {p q : Place} (hq : t.isFolder q = true) (hqp : ¬q <+: p) :
    (t.erase p).isFolder q = true := by
  rw [isFolder_iff] at hq ⊢
  rcases hq with hq | hq | ⟨f, hf, hqf, hne⟩
  · exact .inl hq
  · exact .inr (.inl hq)
  · have hfp : f ≠ p := by
      rintro rfl
      exact hqp hqf
    exact .inr (.inr ⟨f, (isFile_erase ..).2 ⟨hfp, hf⟩, hqf, hne⟩)

/-- No folder is lost from `t` to `t'`. -/
def Grows (t t' : FileTree) : Prop := ∀ p, t.isFolder p = true → t'.isFolder p = true

theorem Grows.trans {t t' t'' : FileTree} (h : t.Grows t') (h' : t'.Grows t'') : t.Grows t'' :=
  fun p hp => h' p (h p hp)

/-- No folder is lost when the folder of every file that goes stays. -/
theorem grows_of_files {t t' : FileTree} (hfolders : t.folders ⊆ t'.folders)
    (hfiles : ∀ q, t.isFile q = true → t'.isFile q = true ∨ t'.isFolder q.dropLast = true) :
    t.Grows t' := by
  intro p hp
  rcases isFolder_iff.1 hp with hnil | ⟨q, hq, hpq⟩ | ⟨q, hq, hpq, hne⟩
  · exact isFolder_iff.2 (.inl hnil)
  · exact isFolder_iff.2 (.inr (.inl ⟨q, hfolders hq, hpq⟩))
  · rcases hfiles q hq with hq | hq
    · exact isFolder_iff.2 (.inr (.inr ⟨q, hq, hpq, hne⟩))
    · refine isFolder_of_isPrefix ?_ hq
      obtain ⟨rest, rfl⟩ := hpq
      have hrest : rest ≠ [] := by
        rintro rfl
        exact hne (List.append_nil p).symm
      rw [List.dropLast_append_of_ne_nil hrest]
      exact List.prefix_append _ _

theorem folders_insert (t : FileTree) (p : Place) (content : Option String) :
    (t.insert p content).folders = t.folders := by
  unfold insert
  split <;> rfl

theorem grows_insert (t : FileTree) (p : Place) (content : Option String) :
    t.Grows (t.insert p content) := by
  refine grows_of_files ?_ fun q hq => .inl ((isFile_insert ..).2 (.inr hq))
  rw [folders_insert]
  exact List.Subset.refl _

theorem makeFoldersFrom_spec {cs : List Component} {t t' : FileTree} {at' : Place}
    (h : t.makeFoldersFrom at' cs = some t') : t'.files = t.files ∧ t.folders ⊆ t'.folders := by
  induction cs generalizing t at' with
  | nil =>
    cases h
    exact ⟨rfl, List.Subset.refl _⟩
  | cons c cs ih =>
    cases c with
    | root => cases h
    | current => exact ih h
    | parent =>
      rw [makeFoldersFrom] at h
      split at h
      · cases h
      · exact ih h
    | normal name =>
      rw [makeFoldersFrom] at h
      split at h
      · cases h
      · obtain ⟨hfiles, hfolders⟩ := ih h
        split at hfiles
        · next hfolder =>
          rw [if_pos hfolder] at hfolders
          exact ⟨hfiles, hfolders⟩
        · next hfolder =>
          rw [if_neg hfolder] at hfolders
          exact ⟨hfiles, List.Subset.trans (List.subset_append_left _ _) hfolders⟩

theorem file?_of_files {t t' : FileTree} (h : t'.files = t.files) (p : Place) :
    t'.file? p = t.file? p := by
  rw [file?, file?, h]

theorem grows_of_makeFolders? {t t' : FileTree} {path : FilePath}
    (h : t.makeFolders? path = some t') : t'.files = t.files ∧ t.Grows t' := by
  obtain ⟨hfiles, hfolders⟩ := makeFoldersFrom_spec h
  refine ⟨hfiles, grows_of_files hfolders fun q hq => .inl ?_⟩
  rw [isFile, file?_of_files hfiles]
  exact hq

/-! ## Where paths lead -/

theorem follow_append (t : FileTree) (at' : Place) (cs ds : List Component) :
    t.follow at' (cs ++ ds) = (t.follow at' cs).bind fun p => t.follow p ds := by
  induction cs generalizing at' with
  | nil => rfl
  | cons c cs ih =>
    cases c with
    | root => rfl
    | current => exact ih at'
    | normal name => exact ih (at' ++ [name])
    | parent =>
      rw [List.cons_append, follow, follow]
      split
      · rfl
      · exact ih _

theorem follow_normal (t : FileTree) (at' : Place) (names : List String) :
    t.follow at' (names.map .normal) = some (at' ++ names) := by
  induction names generalizing at' with
  | nil => exact congrArg some (List.append_nil at').symm
  | cons name names ih =>
    rw [List.map_cons, follow, ih, List.append_assoc]
    rfl

theorem follow_mono {t t' : FileTree} (h : t.Grows t') {at' p : Place} {cs : List Component}
    (hp : t.follow at' cs = some p) : t'.follow at' cs = some p := by
  induction cs generalizing at' with
  | nil => exact hp
  | cons c cs ih =>
    cases c with
    | root => cases hp
    | current => exact ih hp
    | normal name => exact ih hp
    | parent =>
      rw [follow] at hp ⊢
      split at hp
      · cases hp
      · next hat =>
        simp only [Bool.or_eq_true, Bool.not_eq_true', not_or, Bool.not_eq_false] at hat
        rw [if_neg (by simp [hat.1, h _ hat.2])]
        exact ih hp

theorem locate_eq_some_iff {t : FileTree} {path : FilePath} {p : Place} :
    t.locate path = some p ↔ path.text ≠ "" ∧ t.follow [] path.components = some p ∧
      ¬(path.text.toList.getLast? = some '/' ∧ t.isFile p = true) := by
  rw [locate]
  split
  · next hempty => exact iff_of_false nofun fun h => h.1 hempty
  · next hne =>
    rw [and_iff_right hne]
    cases t.follow [] path.components with
    | none => exact iff_of_false nofun fun h => nomatch h.1
    | some q =>
      show (if _ then none else some q) = some p ↔ _
      split
      · next hfile =>
        refine iff_of_false nofun fun ⟨hq, hno⟩ => hno ?_
        cases hq
        simpa using hfile
      · next hfile =>
        refine ⟨fun h => ?_, fun h => h.1⟩
        cases h
        exact ⟨rfl, by simpa using hfile⟩

/-- A path that ends in a name leads to that name in the folder that the components above it lead
to. -/
theorem locate_eq {path : FilePath} {above : List Component} {names : List String}
    (hpath : path.components = above ++ names.map .normal) (hne : path.text ≠ "")
    (hlast : path.text.toList.getLast? ≠ some '/') (t : FileTree) :
    t.locate path = (t.follow [] above).map (· ++ names) := by
  rw [locate, if_neg hne, hpath, follow_append]
  cases hdir : t.follow [] above with
  | none => rfl
  | some dir =>
    rw [Option.bind_some, follow_normal]
    simp [hlast]

/-- Paths that differ in what is appended without slashes lead to one folder. -/
theorem locate_append (a : String) :
    ∃ above last, ∀ (ext : String) (t : FileTree), '/' ∉ ext.toList → 2 < ext.length →
      t.locate ⟨a ++ ext⟩ = (t.follow [] above).map fun dir => dir ++ [last ++ ext] := by
  obtain ⟨above, last, h⟩ := FilePath.components_append a
  refine ⟨above, last, ?_⟩
  intro ext t hext hlen
  have hne : ext.toList ≠ [] := by
    intro hnil
    rw [String.toList_eq_nil_iff.1 hnil] at hlen
    exact absurd hlen (by decide)
  refine locate_eq (h ext hext hlen).1 ?_ ?_ t
  · show a ++ ext ≠ ""
    intro hnil
    have := congrArg String.toList hnil
    simp [String.toList_append] at this
    exact hne (by simp [this.2])
  · show (a ++ ext).toList.getLast? ≠ some '/'
    rw [String.toList_append, List.getLast?_append_of_ne_nil _ hne]
    intro hlast
    exact hext (List.mem_of_getLast? hlast)

/-- A path to a source leads where it led before. -/
theorem locate_mono {t t' : FileTree} (h : t.Grows t') {a : String} {p : Place}
    (hp : t.locate ⟨a ++ ".rs"⟩ = some p) : t'.locate ⟨a ++ ".rs"⟩ = some p := by
  obtain ⟨above, last, hlocate⟩ := locate_append a
  rw [hlocate ".rs" _ (by decide) (by decide)] at hp ⊢
  obtain ⟨dir, hdir, rfl⟩ := Option.map_eq_some_iff.1 hp
  rw [follow_mono h hdir]
  rfl

/-! ## Replacing a file -/

theorem pure_apply {α : Type} (a : α) (t : FileTree) :
    (pure a : StateM FileTree α) t = (a, t) := rfl

/-- Makes the folder of a path, if it has one. -/
def prepare (disk : Disk (StateM FileTree)) (path : FilePath) (t : FileTree) : Bool × FileTree :=
  if path.folder.text = "" then (true, t) else disk.makeFolders path.folder t

/-- Writes a text beside its file, whose folder is there, and gives it the file's name. -/
def put (disk : Disk (StateM FileTree)) (path : FilePath) (text : String) (made : FileTree) :
    Except FilePath Unit × FileTree :=
  match disk.write (Disk.temporary path) text made with
  | (false, written) => (.error (Disk.temporary path), written)
  | (true, written) =>
    match disk.rename (Disk.temporary path) path written with
    | (false, renamed) => (.error path, (disk.remove (Disk.temporary path) renamed).2)
    | (true, renamed) => (.ok (), renamed)

theorem replace_run (disk : Disk (StateM FileTree)) (path : FilePath) (text : String)
    (t : FileTree) :
    disk.replace path text t =
      if (prepare disk path t).1 then put disk path text (prepare disk path t).2
      else (.error path.folder, (prepare disk path t).2) := by
  have hput (made : FileTree) :
      (do unless ← disk.write (Disk.temporary path) text do
            return .error (Disk.temporary path)
          unless ← disk.rename (Disk.temporary path) path do
            disk.remove (Disk.temporary path)
            return .error path
          return .ok () : StateM FileTree (Except FilePath Unit)) made
        = put disk path text made := by
    unfold put
    rcases hwrite : disk.write (Disk.temporary path) text made with ⟨_ | _, written⟩
    · simp [hwrite, bind, StateT.bind, pure_apply]
    · rcases hrename : disk.rename (Disk.temporary path) path written with ⟨_ | _, renamed⟩
      · simp [hwrite, hrename, bind, StateT.bind, pure_apply]
        rfl
      · simp [hwrite, hrename, bind, StateT.bind, pure_apply]
  unfold Disk.replace prepare
  by_cases hfolder : path.folder.text = ""
  · simp only [hfolder]
    exact hput t
  · rcases hmade : disk.makeFolders path.folder t with ⟨_ | _, made⟩
    · simp [hmade, hfolder, bind, StateT.bind, pure_apply]
    · simpa [hmade, hfolder, bind, StateT.bind] using hput made

/-- A file is written beside its place and takes its name, when its folder is there. -/
def putFile (t : FileTree) (path : FilePath) (text : String) : Except FilePath Unit × FileTree :=
  match t.write? (Disk.temporary path) text with
  | none => (.error (Disk.temporary path), t)
  | some written =>
    match written.rename? (Disk.temporary path) path with
    | none => (.error path, (written.locate (Disk.temporary path)).elim written written.erase)
    | some renamed => (.ok (), renamed)

theorem disk_replace (t : FileTree) (path : FilePath) (text : String) :
    FileTree.disk.replace path text t =
      match t.makeFolders? path.folder with
      | none => (.error path.folder, t)
      | some made => made.putFile path text := by
  have hput (made : FileTree) : put disk path text made = made.putFile path text := by
    simp only [put, putFile, disk, change]
    cases made.write? (Disk.temporary path) text with
    | none => rfl
    | some written =>
      dsimp only
      cases written.rename? (Disk.temporary path) path <;> rfl
  have hprepare : prepare disk path t = change (·.makeFolders? path.folder) t := by
    rw [prepare]
    split
    · next hempty =>
      rw [change, makeFolders?, FilePath.components_eq_nil hempty]
      rfl
    · rfl
  rw [replace_run, hprepare, change]
  cases t.makeFolders? path.folder with
  | none => rfl
  | some made => exact hput made

/-- The place of a file whose name ends in `.rs`. -/
def IsSourcePlace (p : Place) : Prop := ∃ dir name, p = dir ++ [name ++ ".rs"]

theorem not_isSourcePlace (dir : Place) (name : String) :
    ¬IsSourcePlace (dir ++ [name ++ ".rs.tmp"]) := by
  rintro ⟨dir', name', h⟩
  have hname : name ++ ".rs.tmp" = name' ++ ".rs" := by
    have := congrArg List.getLast? h
    simpa using this
  have hlast := congrArg (fun s : String => s.toList.getLast?) hname
  simp [String.toList_append] at hlast

/-- What is left of `t` when the file at `path` was to be replaced: no folder is lost; on success
the file holds the text; and no other source changes. -/
structure Replaced (t t' : FileTree) (path : FilePath) (text : String)
    (result : Except FilePath Unit) : Prop where
  grows : t.Grows t'
  done : result = .ok () →
    ∃ p, IsSourcePlace p ∧ t'.locate path = some p ∧ t'.file? p = some (some text) ∧
      ∀ q, IsSourcePlace q → q ≠ p → t'.file? q = t.file? q
  failed : result ≠ .ok () → ∀ q, IsSourcePlace q → t'.file? q = t.file? q

theorem Replaced.of_error (t : FileTree) (path at' : FilePath) (text : String) :
    Replaced t t path text (.error at') :=
  ⟨fun _ h => h, fun h => (nomatch h), fun _ _ _ => rfl⟩

theorem takesFile_iff {t : FileTree} {dir : Place} {name : String} :
    t.takesFile (dir ++ [name]) = true ↔
      t.isFolder dir = true ∧ t.isFolder (dir ++ [name]) = false := by
  simp [takesFile]

/-- A file that takes another name in its folder leaves every folder. -/
theorem grows_rename (t : FileTree) (dir : Place) (name other : String) (content : Option String) :
    t.Grows ((t.erase (dir ++ [name])).insert (dir ++ [other]) content) := by
  refine grows_of_files ?_ ?_
  · rw [folders_insert]
    exact List.Subset.refl _
  · intro f hf
    by_cases hname : f = dir ++ [name]
    · right
      rw [hname, List.dropLast_concat]
      exact isFolder_of_isFile ((isFile_insert ..).2 (.inl rfl))
    · exact .inl ((isFile_insert ..).2 (.inr ((isFile_erase ..).2 ⟨hname, hf⟩)))

/-- A file that is removed beside a folder leaves every folder. -/
theorem grows_erase {t : FileTree} {dir : Place} {name other : String} (hne : other ≠ name)
    (h : t.isFolder (dir ++ [other]) = true) : t.Grows (t.erase (dir ++ [name])) := by
  refine grows_of_files (List.Subset.refl _) ?_
  intro f hf
  by_cases hname : f = dir ++ [name]
  · right
    have hapart : ¬dir ++ [other] <+: dir ++ [name] := by
      intro hpre
      have := hpre.eq_of_length (by simp)
      exact hne (by simpa using this)
    rw [hname, List.dropLast_concat]
    exact isFolder_of_isPrefix (List.prefix_append _ _) (isFolder_erase h hapart)
  · exact .inl ((isFile_erase ..).2 ⟨hname, hf⟩)

theorem write?_eq {t : FileTree} {path : FilePath} {p : Place} (hp : t.locate path = some p)
    (text : String) :
    t.write? path text = if t.takesFile p then some (t.insert p (some text)) else none := by
  rw [write?, hp]
  rfl

theorem rename?_eq {t : FileTree} {path target : FilePath} {p q : Place} {content : Option String}
    (hp : t.locate path = some p) (hq : t.locate target = some q)
    (hcontent : t.file? p = some content) (hne : p ≠ q) :
    t.rename? path target
      = if t.takesFile q then some ((t.erase p).insert q content) else none := by
  rw [rename?, hp, hq, Option.bind_eq_bind, Option.bind_some, Option.bind_eq_bind,
    Option.bind_some, hcontent, Option.bind_some, if_neg hne]

section

variable {t written : FileTree} {dir : Place} {last a text : String}

/-- The new text, written beside the source, has changed no source. -/
theorem file?_beside (hwritten : written = t.insert (dir ++ [last ++ ".rs.tmp"]) (some text))
    {q : Place} (hq : IsSourcePlace q) :
    (written.erase (dir ++ [last ++ ".rs.tmp"])).file? q = t.file? q := by
  have hne : q ≠ dir ++ [last ++ ".rs.tmp"] := by
    rintro rfl
    exact not_isSourcePlace _ _ hq
  rw [file?_erase, if_neg hne, hwritten, file?_insert, if_neg hne]

/-- The new text takes the name of the source. -/
theorem replaced_of_rename
    (hwritten : written = t.insert (dir ++ [last ++ ".rs.tmp"]) (some text))
    (hlocate : written.locate ⟨a ++ ".rs"⟩ = some (dir ++ [last ++ ".rs"])) :
    Replaced t
      ((written.erase (dir ++ [last ++ ".rs.tmp"])).insert (dir ++ [last ++ ".rs"]) (some text))
      ⟨a ++ ".rs"⟩ text (.ok ()) := by
  have hmoved := grows_rename written dir (last ++ ".rs.tmp") (last ++ ".rs") (some text)
  have hgrows : t.Grows written := by
    rw [hwritten]
    exact grows_insert t _ _
  refine ⟨hgrows.trans hmoved, fun _ => ?_, fun h => absurd rfl h⟩
  refine ⟨dir ++ [last ++ ".rs"], ⟨dir, last, rfl⟩, locate_mono hmoved hlocate, ?_, ?_⟩
  · rw [file?_insert, if_pos rfl]
  · intro q hq hne
    rw [file?_insert, if_neg hne, file?_beside hwritten hq]

/-- The new text is removed, where a folder has the name of the source. -/
theorem replaced_of_erase {path at' : FilePath}
    (hwritten : written = t.insert (dir ++ [last ++ ".rs.tmp"]) (some text))
    (hfolder : written.isFolder (dir ++ [last ++ ".rs"]) = true) :
    Replaced t (written.erase (dir ++ [last ++ ".rs.tmp"])) path text (.error at') := by
  have hnames : last ++ ".rs" ≠ last ++ ".rs.tmp" := by
    intro heq
    have := congrArg String.length heq
    rw [String.length_append, String.length_append] at this
    exact absurd (Nat.add_left_cancel this) (by decide)
  have hgrows : t.Grows written := by
    rw [hwritten]
    exact grows_insert t _ _
  exact ⟨hgrows.trans (grows_erase hnames hfolder), fun h => (nomatch h),
    fun _ q hq => file?_beside hwritten hq⟩

end

/-- A source is written beside its place and renamed in one folder. -/
theorem putFile_replaced (t : FileTree) (a text : String) :
    Replaced t (t.putFile ⟨a ++ ".rs"⟩ text).2 ⟨a ++ ".rs"⟩ text
      (t.putFile ⟨a ++ ".rs"⟩ text).1 := by
  obtain ⟨above, last, hlocate⟩ := locate_append a
  have htemp : ∀ t : FileTree, t.locate (Disk.temporary ⟨a ++ ".rs"⟩)
      = (t.follow [] above).map fun dir => dir ++ [last ++ ".rs.tmp"] := by
    intro t
    rw [Disk.temporary, String.append_assoc]
    exact hlocate ".rs.tmp" t (by decide) (by decide)
  cases hdir : t.follow [] above with
  | none =>
    have hnone : t.write? (Disk.temporary ⟨a ++ ".rs"⟩) text = none := by
      rw [write?, htemp, hdir]
      rfl
    rw [putFile, hnone]
    exact .of_error ..
  | some dir =>
    have hp : t.locate (Disk.temporary ⟨a ++ ".rs"⟩) = some (dir ++ [last ++ ".rs.tmp"]) := by
      rw [htemp, hdir]
      rfl
    rw [putFile, write?_eq hp]
    by_cases htakes : t.takesFile (dir ++ [last ++ ".rs.tmp"]) = true
    · rw [if_pos htakes]
      dsimp only
      generalize hwritten : t.insert (dir ++ [last ++ ".rs.tmp"]) (some text) = written
      have hgrows : t.Grows written := by
        rw [← hwritten]
        exact grows_insert t _ _
      have hdir' : written.follow [] above = some dir := follow_mono hgrows hdir
      have hp' : written.locate (Disk.temporary ⟨a ++ ".rs"⟩)
          = some (dir ++ [last ++ ".rs.tmp"]) := by
        rw [htemp, hdir']
        rfl
      have hq' : written.locate ⟨a ++ ".rs"⟩ = some (dir ++ [last ++ ".rs"]) := by
        rw [hlocate ".rs" written (by decide) (by decide), hdir']
        rfl
      have hcontent : written.file? (dir ++ [last ++ ".rs.tmp"]) = some (some text) := by
        rw [← hwritten, file?_insert, if_pos rfl]
      rw [rename?_eq hp' hq' hcontent (by simp)]
      by_cases hfree : written.takesFile (dir ++ [last ++ ".rs"]) = true
      · rw [if_pos hfree]
        exact replaced_of_rename hwritten.symm hq'
      · -- the folder is there, so the name of the source is a folder's
        rw [takesFile_iff, not_and, Bool.not_eq_false] at hfree
        have hfolder := hfree (hgrows _ (takesFile_iff.1 htakes).1)
        rw [if_neg (by rw [takesFile_iff, hfolder]; simp), hp']
        exact replaced_of_erase hwritten.symm hfolder
    · rw [if_neg htakes]
      exact .of_error ..

/-- Replacing a source changes no other source and loses no folder. -/
theorem replace_frame (t : FileTree) (a text : String) :
    Replaced t (FileTree.disk.replace ⟨a ++ ".rs"⟩ text t).2 ⟨a ++ ".rs"⟩ text
      (FileTree.disk.replace ⟨a ++ ".rs"⟩ text t).1 := by
  rw [disk_replace]
  cases hmade : t.makeFolders? (FilePath.mk (a ++ ".rs")).folder with
  | none => exact .of_error ..
  | some made =>
    have hfrom := grows_of_makeFolders? hmade
    obtain ⟨hgrows, hdone, hfailed⟩ := putFile_replaced made a text
    refine ⟨hfrom.2.trans hgrows, ?_, ?_⟩
    · intro hok
      obtain ⟨p, hp, hlocate, hfile, hothers⟩ := hdone hok
      refine ⟨p, hp, hlocate, hfile, fun q hq hne => ?_⟩
      rw [hothers q hq hne, file?_of_files hfrom.1]
    · intro herr q hq
      rw [hfailed herr q hq, file?_of_files hfrom.1]

end FileTree

end TypedSettings
