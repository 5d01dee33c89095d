import TypedSettings.Proofs.Disk.FileTree

/-!
Replacing a file again. What comes of replacing a source depends on what stands where: on the way to
its folder, at its own place, and at the place where the new text is written first. After it was
replaced all of that is so that the same comes of it once more, and this stays so while other
sources are replaced, unless one of them is written first where only the way to another leads.

* `replace_eq`: what comes of replacing a source, in closed form.
* `replace_step`: what replacing a source may change.
* `lasting_replace`, `Lasting.step`: a source that was replaced is lasting, and stays so.
* `Lasting.replace_eq`: what comes of replacing a lasting source.
-/

namespace TypedSettings

namespace FileTree

/-! ## Ways -/

/-- The place to which components lead, whatever stands there. -/
def reach : Place → List Component → Place
  | at', [] => at'
  | _, .root :: rest => reach [] rest
  | at', .current :: rest => reach at' rest
  | at', .normal name :: rest => reach (at' ++ [name]) rest
  | at', .parent :: rest => reach at'.dropLast rest

/-- The places that components pass on their way. -/
def passed : Place → List Component → List Place
  | _, [] => []
  | _, .root :: _ => []
  | at', .current :: rest => passed at' rest
  | at', .normal name :: rest => (at' ++ [name]) :: passed (at' ++ [name]) rest
  | at', .parent :: rest => passed at'.dropLast rest

/-- Components that never lead out of the tree. -/
def Stays : Place → List Component → Prop
  | _, [] => True
  | _, .root :: _ => False
  | at', .current :: rest => Stays at' rest
  | at', .normal name :: rest => Stays (at' ++ [name]) rest
  | at', .parent :: rest => at' ≠ [] ∧ Stays at'.dropLast rest

/-- The place that a path names, whatever stands there. -/
def place (path : FilePath) : Place := reach [] path.components

/-- The places where the way to a path needs folders. -/
def ways (path : FilePath) : List Place := passed [] path.folder.components

theorem follow_eq_reach {t : FileTree} {at' p : Place} {cs : List Component}
    (h : t.follow at' cs = some p) : p = reach at' cs := by
  induction cs generalizing at' with
  | nil =>
    cases h
    rfl
  | cons c cs ih =>
    cases c with
    | root => cases h
    | current => exact ih h
    | normal name => exact ih h
    | parent =>
      rw [follow] at h
      split at h
      · cases h
      · exact ih h

theorem eq_place {t : FileTree} {path : FilePath} {p : Place} (h : t.locate path = some p) :
    p = place path :=
  follow_eq_reach (locate_eq_some_iff.1 h).2.1

theorem reach_append (at' : Place) (cs ds : List Component) :
    reach at' (cs ++ ds) = reach (reach at' cs) ds := by
  induction cs generalizing at' with
  | nil => rfl
  | cons c cs ih => cases c <;> exact ih _

theorem reach_names {at' : Place} {cs : List Component} {n : String} (h : n ∈ reach at' cs) :
    n ∈ at' ∨ .normal n ∈ cs := by
  induction cs generalizing at' with
  | nil => exact .inl h
  | cons c cs ih =>
    cases c with
    | root => exact .inr (List.mem_cons_of_mem _ ((ih h).resolve_left fun h => nomatch h))
    | current => exact (ih h).imp_right (List.mem_cons_of_mem _)
    | parent => exact (ih h).imp (List.dropLast_subset _ ·) (List.mem_cons_of_mem _)
    | normal name =>
      rcases ih h with h | h
      · rcases List.mem_append.1 h with h | h
        · exact .inl h
        · obtain rfl := List.mem_singleton.1 h
          exact .inr List.mem_cons_self
      · exact .inr (List.mem_cons_of_mem _ h)

theorem isPlain_of_mem_place {path : FilePath} {n : String} (h : n ∈ place path) :
    FilePath.IsPlain n :=
  FilePath.isPlain_of_mem_components ((reach_names h).resolve_left fun h => nomatch h)

/-- Where all the folders are, components lead to one of them. -/
theorem follow_of_folders {t : FileTree} {at' : Place} {cs : List Component} (h : Stays at' cs)
    (hat : t.isFolder at' = true) (hways : ∀ w ∈ passed at' cs, t.isFolder w = true) :
    t.follow at' cs = some (reach at' cs) ∧ t.isFolder (reach at' cs) = true := by
  induction cs generalizing at' with
  | nil => exact ⟨rfl, hat⟩
  | cons c cs ih =>
    cases c with
    | root => exact h.elim
    | current => exact ih h hat hways
    | normal name =>
      exact ih h (hways _ List.mem_cons_self) fun w hw => hways w (List.mem_cons_of_mem _ hw)
    | parent =>
      rw [follow, if_neg (by simp [h.1, hat])]
      exact ih h.2 (isFolder_of_isPrefix (List.dropLast_prefix _) hat) hways

/-! ## Making folders -/

/-- The way leads somewhere, and no file stands in it. -/
def Passable (t : FileTree) (at' : Place) (cs : List Component) : Prop :=
  Stays at' cs ∧ ∀ w ∈ passed at' cs, t.isFile w = false

/-- The way leads somewhere, and all its folders are there. -/
def Open (t : FileTree) (at' : Place) (cs : List Component) : Prop :=
  Passable t at' cs ∧ ∀ w ∈ passed at' cs, t.isFolder w = true

theorem isFile_of_files {t t' : FileTree} (h : t'.files = t.files) (p : Place) :
    t'.isFile p = t.isFile p := by
  rw [isFile, isFile, file?_of_files h]

/-- A folder that is made is the only one that is new, where the folder above it is there. -/
theorem isFolder_made {t : FileTree} {at' : Place} {name : String} (hat : t.isFolder at' = true)
    (w : Place) : FileTree.isFolder { t with folders := t.folders ++ [at' ++ [name]] } w = true ↔
      t.isFolder w = true ∨ w = at' ++ [name] := by
  have hfile (q : Place) : FileTree.isFile { t with folders := t.folders ++ [at' ++ [name]] } q
      = t.isFile q := rfl
  simp only [isFolder_iff, hfile, List.mem_append, List.mem_singleton]
  constructor
  · rintro (hw | ⟨q, hq | rfl, hwq⟩ | hw)
    · exact .inl (.inl hw)
    · exact .inl (.inr (.inl ⟨q, hq, hwq⟩))
    · rcases List.prefix_concat_iff.1 hwq with rfl | hwat
      · exact .inr rfl
      · exact .inl (isFolder_iff.1 (isFolder_of_isPrefix hwat hat))
    · exact .inl (.inr (.inr hw))
  · rintro ((hw | ⟨q, hq, hwq⟩ | hw) | rfl)
    · exact .inl hw
    · exact .inr (.inl ⟨q, .inl hq, hwq⟩)
    · exact .inr (.inr hw)
    · exact .inr (.inl ⟨_, .inr rfl, List.prefix_rfl⟩)

/-- Folders are made where no file is in the way, and those on the way are the only new ones. -/
theorem makeFoldersFrom_of_passable {cs : List Component} {t : FileTree} {at' : Place}
    (hat : t.isFolder at' = true) (h : Passable t at' cs) :
    ∃ made, t.makeFoldersFrom at' cs = some made ∧ made.files = t.files ∧ Open made at' cs ∧
      ∀ w, made.isFolder w = true ↔ t.isFolder w = true ∨ w ∈ passed at' cs := by
  induction cs generalizing t at' with
  | nil => exact ⟨t, rfl, rfl, ⟨h, fun w hw => nomatch hw⟩, fun w => by simp [passed]⟩
  | cons c cs ih =>
    cases c with
    | root => exact h.1.elim
    | current => exact ih hat h
    | parent =>
      rw [makeFoldersFrom, if_neg (by simpa using h.1.1)]
      obtain ⟨made, hmade, hfiles, hopen, hfolders⟩ :=
        ih (isFolder_of_isPrefix (List.dropLast_prefix _) hat) ⟨h.1.2, h.2⟩
      exact ⟨made, hmade, hfiles, ⟨⟨⟨h.1.1, hopen.1.1⟩, hopen.1.2⟩, hopen.2⟩, hfolders⟩
    | normal name =>
      obtain ⟨hstays, hfile, hrest⟩ : Stays (at' ++ [name]) cs ∧ t.isFile (at' ++ [name]) = false ∧
          ∀ w ∈ passed (at' ++ [name]) cs, t.isFile w = false :=
        ⟨h.1, List.forall_mem_cons.1 h.2⟩
      -- the folder is there or is made, and nothing else changes
      obtain ⟨first, hfirst, hsame, hfolder, hothers⟩ : ∃ first : FileTree,
          (if t.isFolder (at' ++ [name]) then t
            else { t with folders := t.folders ++ [at' ++ [name]] }) = first ∧
          first.files = t.files ∧ first.isFolder (at' ++ [name]) = true ∧
          ∀ w, first.isFolder w = true ↔ t.isFolder w = true ∨ w = at' ++ [name] := by
        split
        · next hthere =>
          refine ⟨t, rfl, rfl, hthere, fun w => ⟨.inl, ?_⟩⟩
          rintro (hw | rfl)
          · exact hw
          · exact hthere
        · exact ⟨_, rfl, rfl, (isFolder_made hat _).2 (.inr rfl), isFolder_made hat⟩
      obtain ⟨made, hmade, hfiles, ⟨⟨-, hfree⟩, hopen⟩, hfolders⟩ := ih hfolder
        ⟨hstays, fun w hw => (isFile_of_files hsame w).trans (hrest w hw)⟩
      rw [makeFoldersFrom, if_neg (by rw [hfile]; exact Bool.false_ne_true), hfirst]
      have hown : made.isFolder (at' ++ [name]) = true := (hfolders _).2 (.inl hfolder)
      refine ⟨made, hmade, hfiles.trans hsame, ⟨⟨hstays, ?_⟩, ?_⟩, fun w => ?_⟩
      · refine List.forall_mem_cons.2 ⟨?_, hfree⟩
        rw [isFile_of_files (hfiles.trans hsame), hfile]
      · exact List.forall_mem_cons.2 ⟨hown, hopen⟩
      · rw [hfolders, hothers, or_assoc]
        exact or_congr_right List.mem_cons.symm

theorem passable_of_makeFoldersFrom {cs : List Component} {t made : FileTree} {at' : Place}
    (h : t.makeFoldersFrom at' cs = some made) : Passable t at' cs := by
  induction cs generalizing t at' with
  | nil => exact ⟨trivial, fun w hw => nomatch hw⟩
  | cons c cs ih =>
    cases c with
    | root => cases h
    | current => exact ih h
    | parent =>
      rw [makeFoldersFrom] at h
      split at h
      · cases h
      · next hat => exact ⟨⟨by simpa using hat, (ih h).1⟩, (ih h).2⟩
    | normal name =>
      rw [makeFoldersFrom] at h
      split at h
      · cases h
      · next hfile =>
        obtain ⟨hstays, hfree⟩ := ih h
        refine ⟨hstays, List.forall_mem_cons.2 ⟨Bool.eq_false_iff.2 hfile, fun w hw => ?_⟩⟩
        rw [← hfree w hw]
        refine (isFile_of_files ?_ w).symm
        split <;> rfl

/-- Where all the folders are, none is made. -/
theorem makeFoldersFrom_of_open {cs : List Component} {t : FileTree} {at' : Place}
    (h : Open t at' cs) : t.makeFoldersFrom at' cs = some t := by
  induction cs generalizing at' with
  | nil => rfl
  | cons c cs ih =>
    obtain ⟨⟨hstays, hfree⟩, hfolders⟩ := h
    cases c with
    | root => exact hstays.elim
    | current => exact ih ⟨⟨hstays, hfree⟩, hfolders⟩
    | parent =>
      rw [makeFoldersFrom, if_neg (by simpa using hstays.1)]
      exact ih ⟨⟨hstays.2, hfree⟩, hfolders⟩
    | normal name =>
      rw [passed, List.forall_mem_cons] at hfree hfolders
      rw [makeFoldersFrom, if_neg (by rw [hfree.1]; exact Bool.false_ne_true)]
      simp only [hfolders.1, if_true]
      exact ih ⟨⟨hstays, hfree.2⟩, hfolders.2⟩

/-! ## What comes of replacing a source -/

/-- A source and its new text have places in one folder, which is where the way to it ends. -/
theorem exists_places (a : String) :
    ∃ dir last, place ⟨a ++ ".rs"⟩ = dir ++ [last ++ ".rs"] ∧
      place (Disk.temporary ⟨a ++ ".rs"⟩) = dir ++ [last ++ ".rs.tmp"] ∧
      ∀ t, Open t [] (FilePath.folder ⟨a ++ ".rs"⟩).components → t.isFolder dir = true ∧
        t.locate ⟨a ++ ".rs"⟩ = some (dir ++ [last ++ ".rs"]) ∧
        t.locate (Disk.temporary ⟨a ++ ".rs"⟩) = some (dir ++ [last ++ ".rs.tmp"]) := by
  obtain ⟨above, last, h⟩ := FilePath.components_append a
  have htemp : Disk.temporary ⟨a ++ ".rs"⟩ = ⟨a ++ ".rs.tmp"⟩ := by
    rw [Disk.temporary, String.append_assoc]
    rfl
  obtain ⟨hrs, habove⟩ := h ".rs" (by decide) (by decide)
  obtain ⟨htmp, -⟩ := h ".rs.tmp" (by decide) (by decide)
  refine ⟨reach [] above, last, ?_, ?_, ?_⟩
  · rw [place, hrs, reach_append]
    rfl
  · rw [htemp, place, htmp, reach_append]
    rfl
  · rintro t ⟨⟨hstays, -⟩, hfolders⟩
    rw [habove] at hstays hfolders
    obtain ⟨hfollow, hdir⟩ := follow_of_folders hstays (isFolder_iff.2 (.inl rfl)) hfolders
    have hlocate (ext : String) (hne : ext.toList.getLast? ≠ none)
        (hlast : ext.toList.getLast? ≠ some '/')
        (hext : FilePath.components ⟨a ++ ext⟩ = above ++ [.normal (last ++ ext)]) :
        t.locate ⟨a ++ ext⟩ = some (reach [] above ++ [last ++ ext]) := by
      have hpath : FilePath.components ⟨a ++ ext⟩ = above ++ [last ++ ext].map .normal := hext
      rw [locate_eq hpath, hfollow]
      · rfl
      · exact fun hnil => hne (by simp_all)
      · rw [String.toList_append, List.getLast?_append_of_ne_nil _ (by simpa using hne)]
        exact hlast
    rw [htemp]
    exact ⟨hdir, hlocate _ (by decide) (by decide) hrs, hlocate _ (by decide) (by decide) htmp⟩

/-- Neither a source nor its new text lies in the other. -/
theorem places_apart (a : String) :
    ¬place ⟨a ++ ".rs"⟩ <+: place (Disk.temporary ⟨a ++ ".rs"⟩) ∧
      ¬place (Disk.temporary ⟨a ++ ".rs"⟩) <+: place ⟨a ++ ".rs"⟩ := by
  obtain ⟨dir, last, hplace, htemp, -⟩ := exists_places a
  have hne : dir ++ [last ++ ".rs"] ≠ dir ++ [last ++ ".rs.tmp"] := by simp
  rw [hplace, htemp]
  exact ⟨fun h => hne (h.eq_of_length (by simp)), fun h => hne.symm (h.eq_of_length (by simp))⟩

theorem place_ne_temporary (a : String) :
    place ⟨a ++ ".rs"⟩ ≠ place (Disk.temporary ⟨a ++ ".rs"⟩) :=
  fun h => (places_apart a).1 (h ▸ List.prefix_rfl)

variable {t : FileTree} {a : String}

theorem replace_of_not_passable {path : FilePath} (h : ¬Passable t [] path.folder.components)
    (text : String) : FileTree.disk.replace path text t = (.error path.folder, t) := by
  have hnone : t.makeFolders? path.folder = none := by
    rw [Option.eq_none_iff_forall_ne_some]
    exact fun made hmade => h (passable_of_makeFoldersFrom hmade)
  rw [disk_replace, hnone]

/-- Where no folder is missing, none is made. -/
theorem replace_of_open {path : FilePath} (h : Open t [] path.folder.components) (text : String) :
    FileTree.disk.replace path text t = t.putFile path text := by
  rw [disk_replace, makeFolders?, makeFoldersFrom_of_open h]

/-- The folders on the way are made first, which changes no file. -/
theorem replace_of_passable {path : FilePath} (h : Passable t [] path.folder.components)
    (text : String) :
    ∃ made : FileTree, made.files = t.files ∧ Open made [] path.folder.components ∧
      (∀ w, made.isFolder w = true ↔ t.isFolder w = true ∨ w ∈ ways path) ∧
      FileTree.disk.replace path text t = FileTree.disk.replace path text made := by
  obtain ⟨made, hmade, hfiles, hopen, hfolders⟩ :=
    makeFoldersFrom_of_passable (isFolder_iff.2 (.inl rfl)) h
  refine ⟨made, hfiles, hopen, hfolders, ?_⟩
  rw [replace_of_open hopen, disk_replace, makeFolders?, hmade]

theorem erase_insert (t : FileTree) (p : Place) (content : Option String) :
    (t.insert p content).erase p = t.erase p := by
  unfold insert erase
  split
  · have hkeep : ∀ files : List (Place × Option String),
        (files.map fun f => if f.1 = p then (p, content) else f).filter (fun f => f.1 != p)
          = files.filter fun f => f.1 != p := by
      intro files
      induction files with
      | nil => rfl
      | cons f files ih =>
        by_cases hf : f.1 = p
        · simp [hf, ih]
        · simp [hf, ih]
    rw [hkeep]
  · simp [List.filter_append]

theorem isFolder_insert {t : FileTree} {p w : Place} {content : Option String}
    (h : (t.insert p content).isFolder w = true) :
    t.isFolder w = true ∨ (w <+: p ∧ w ≠ p) := by
  rw [isFolder_iff, folders_insert] at h
  rcases h with h | h | ⟨q, hq, hwq, hne⟩
  · exact .inl (isFolder_iff.2 (.inl h))
  · exact .inl (isFolder_iff.2 (.inr (.inl h)))
  · rcases (isFile_insert ..).1 hq with rfl | hq
    · exact .inr ⟨hwq, hne⟩
    · exact .inl (isFolder_iff.2 (.inr (.inr ⟨q, hq, hwq, hne⟩)))

/-- On an open way, a new text can be written beside its source unless a folder stands there. -/
theorem write?_temporary (h : Open t [] (FilePath.folder ⟨a ++ ".rs"⟩).components)
    (text : String) :
    t.write? (Disk.temporary ⟨a ++ ".rs"⟩) text =
      if t.isFolder (place (Disk.temporary ⟨a ++ ".rs"⟩)) then none
      else some (t.insert (place (Disk.temporary ⟨a ++ ".rs"⟩)) (some text)) := by
  obtain ⟨dir, last, -, htemp, hwhere⟩ := exists_places a
  obtain ⟨hdir, -, hbeside⟩ := hwhere t h
  rw [htemp, write?_eq hbeside]
  cases hoccupied : t.isFolder (dir ++ [last ++ ".rs.tmp"]) with
  | true => rw [if_neg (by rw [takesFile_iff, hoccupied]; simp), if_pos rfl]
  | false => rw [if_pos (takesFile_iff.2 ⟨hdir, hoccupied⟩), if_neg Bool.false_ne_true]

/-- What is written beside a source is in no way. -/
theorem open_insert (h : Open t [] (FilePath.folder ⟨a ++ ".rs"⟩).components)
    (hfree : t.isFolder (place (Disk.temporary ⟨a ++ ".rs"⟩)) = false) (content : Option String) :
    Open (t.insert (place (Disk.temporary ⟨a ++ ".rs"⟩)) content) []
      (FilePath.folder ⟨a ++ ".rs"⟩).components := by
  refine ⟨⟨h.1.1, fun w hw => ?_⟩, fun w hw => grows_insert t _ _ w (h.2 w hw)⟩
  rw [← h.1.2 w hw, Bool.eq_iff_iff, isFile_insert, or_iff_right]
  rintro rfl
  rw [h.2 _ hw] at hfree
  cases hfree

/-- No folder holds what is written beside it. -/
theorem isFolder_insert_beside (t : FileTree) (a : String) (content : Option String) :
    (t.insert (place (Disk.temporary ⟨a ++ ".rs"⟩)) content).isFolder (place ⟨a ++ ".rs"⟩)
      = t.isFolder (place ⟨a ++ ".rs"⟩) := by
  rw [Bool.eq_iff_iff]
  exact ⟨fun hw => (isFolder_insert hw).resolve_right fun h => (places_apart a).1 h.1,
    grows_insert _ _ _ _⟩

/-- What was written beside a source takes its name unless a folder has it. -/
theorem rename?_temporary (h : Open t [] (FilePath.folder ⟨a ++ ".rs"⟩).components)
    (hfree : t.isFolder (place (Disk.temporary ⟨a ++ ".rs"⟩)) = false) (text : String) :
    (t.insert (place (Disk.temporary ⟨a ++ ".rs"⟩)) (some text)).rename?
        (Disk.temporary ⟨a ++ ".rs"⟩) ⟨a ++ ".rs"⟩ =
      if t.isFolder (place ⟨a ++ ".rs"⟩) then none
      else some ((t.erase (place (Disk.temporary ⟨a ++ ".rs"⟩))).insert
        (place ⟨a ++ ".rs"⟩) (some text)) := by
  have hfolder := isFolder_insert_beside t a (some text)
  obtain ⟨dir, last, hplace, htemp, hwhere⟩ := exists_places a
  obtain ⟨hdir, hlocate, hbeside⟩ := hwhere _ (open_insert h hfree (some text))
  rw [htemp, hplace] at hfolder ⊢
  rw [htemp] at hdir hlocate hbeside
  have hcontent : (t.insert (dir ++ [last ++ ".rs.tmp"]) (some text)).file?
      (dir ++ [last ++ ".rs.tmp"]) = some (some text) := by
    rw [file?_insert, if_pos rfl]
  rw [rename?_eq hbeside hlocate hcontent (by simp), erase_insert]
  cases hname : t.isFolder (dir ++ [last ++ ".rs"]) with
  | true => rw [if_neg (by rw [takesFile_iff, hfolder, hname]; simp), if_pos rfl]
  | false =>
    rw [if_pos (takesFile_iff.2 ⟨hdir, hfolder.trans hname⟩), if_neg Bool.false_ne_true]

/-- What was written beside a source is removed again. -/
theorem remove_temporary (h : Open t [] (FilePath.folder ⟨a ++ ".rs"⟩).components)
    (hfree : t.isFolder (place (Disk.temporary ⟨a ++ ".rs"⟩)) = false) (content : Option String) :
    FileTree.disk.remove (Disk.temporary ⟨a ++ ".rs"⟩)
        (t.insert (place (Disk.temporary ⟨a ++ ".rs"⟩)) content) =
      ((), t.erase (place (Disk.temporary ⟨a ++ ".rs"⟩))) := by
  obtain ⟨dir, last, -, htemp, hwhere⟩ := exists_places a
  obtain ⟨-, -, hbeside⟩ := hwhere _ (open_insert h hfree content)
  rw [← htemp] at hbeside
  simp only [disk, hbeside, Option.elim_some, erase_insert]

/-- On an open way, a source is replaced unless a folder stands at its place or where its new text
is written first. -/
theorem replace_eq (h : Open t [] (FilePath.folder ⟨a ++ ".rs"⟩).components) (text : String) :
    FileTree.disk.replace ⟨a ++ ".rs"⟩ text t =
      if t.isFolder (place (Disk.temporary ⟨a ++ ".rs"⟩)) then
        (.error (Disk.temporary ⟨a ++ ".rs"⟩), t)
      else if t.isFolder (place ⟨a ++ ".rs"⟩) then
        (.error ⟨a ++ ".rs"⟩, t.erase (place (Disk.temporary ⟨a ++ ".rs"⟩)))
      else (.ok (), (t.erase (place (Disk.temporary ⟨a ++ ".rs"⟩))).insert
        (place ⟨a ++ ".rs"⟩) (some text)) := by
  rw [replace_of_open h, putFile, write?_temporary h]
  cases hoccupied : t.isFolder (place (Disk.temporary ⟨a ++ ".rs"⟩)) with
  | true => rfl
  | false =>
    rw [if_neg Bool.false_ne_true, if_neg Bool.false_ne_true]
    dsimp only
    rw [rename?_temporary h hoccupied]
    cases hname : t.isFolder (place ⟨a ++ ".rs"⟩) with
    | true => exact congrArg (_, ·.2) (remove_temporary h hoccupied (some text))
    | false => rfl

/-! ## What replacing a source may change -/

/-- The places of the files. -/
def filePlaces (t : FileTree) : List Place := t.files.map Prod.fst

theorem isFile_iff_mem {t : FileTree} {p : Place} : t.isFile p = true ↔ p ∈ t.filePlaces := by
  rw [isFile_iff, filePlaces, List.mem_map]

theorem filePlaces_insert (t : FileTree) (p : Place) (content : Option String) :
    (t.insert p content).filePlaces
      = if t.isFile p then t.filePlaces else t.filePlaces ++ [p] := by
  unfold insert filePlaces
  split
  · rw [List.map_map]
    refine List.map_congr_left fun f _ => ?_
    rw [Function.comp_apply]
    split
    · next hf => exact hf.symm
    · rfl
  · rw [List.map_append]
    rfl

theorem filePlaces_erase (t : FileTree) (p : Place) :
    (t.erase p).filePlaces = t.filePlaces.filter (· != p) := by
  rw [filePlaces, erase, filePlaces, List.filter_map]
  rfl

/-- What is left of places where the one that is erased does not interest. -/
theorem filter_filePlaces_erase (t : FileTree) {p : Place} {P : Place → Bool} (hP : P p = false) :
    (t.erase p).filePlaces.filter P = t.filePlaces.filter P := by
  rw [filePlaces_erase, List.filter_filter]
  refine List.filter_congr fun w _ => ?_
  by_cases hw : w = p
  · rw [hw, hP]
    rfl
  · simp [hw]

theorem isFile_erase_self (t : FileTree) (p : Place) : (t.erase p).isFile p = false := by
  rw [Bool.eq_false_iff, Ne, isFile_erase]
  exact fun h => h.1 rfl

theorem erase_eq_self {t : FileTree} {p : Place} (h : t.isFile p = false) : t.erase p = t := by
  rw [erase, List.filter_eq_self.2]
  intro f hf
  rw [bne_iff_ne]
  rintro rfl
  rw [isFile_iff.2 ⟨f, hf, rfl⟩] at h
  cases h

theorem isFolder_of_erase {t : FileTree} {p w : Place} (h : (t.erase p).isFolder w = true) :
    t.isFolder w = true := by
  rw [isFolder_iff] at h ⊢
  refine h.imp_right fun h => h.imp_right ?_
  rintro ⟨q, hq, hwq⟩
  exact ⟨q, ((isFile_erase ..).1 hq).2, hwq⟩

/-- What may change when a source is replaced: folders are made on the way, where no file stood; the
file at the source's place is the only one that is new, where no folder stood; and the one where
its new text is written first is the only one that may be lost, where the way does not lead. -/
structure ReplaceStep (t t' : FileTree) (path : FilePath) : Prop where
  grows : t.Grows t'
  folders : ∀ w, t'.isFolder w = true →
    t.isFolder w = true ∨ (w ∈ ways path ∧ t.isFile w = false)
  files : ∀ w, t'.isFile w = true → t.isFile w = true ∨ (w = place path ∧ t.isFolder w = false)
  lost : ∀ w, t.isFile w = true →
    t'.isFile w = true ∨ (w = place (Disk.temporary path) ∧ w ∉ ways path)
  /-- where all that interests is not lost, a new file comes last -/
  places : ∀ P : Place → Bool, P (place (Disk.temporary path)) = false →
    ∃ new, t'.filePlaces.filter P = t.filePlaces.filter P ++ new ∧
      ∀ w ∈ new, w = place path ∧ t.isFile w = false

theorem ReplaceStep.refl (t : FileTree) (path : FilePath) : ReplaceStep t t path :=
  ⟨fun _ h => h, fun _ => .inl, fun _ => .inl, fun _ => .inl,
    fun _ _ => ⟨[], (List.append_nil _).symm, fun _ h => nomatch h⟩⟩

/-- Folders on the way come first. -/
theorem ReplaceStep.of_made {t made t' : FileTree} {path : FilePath}
    (hfiles : made.files = t.files) (hopen : Open made [] path.folder.components)
    (hfolders : ∀ w, made.isFolder w = true ↔ t.isFolder w = true ∨ w ∈ ways path)
    (h : ReplaceStep made t' path) : ReplaceStep t t' path := by
  have hsame := isFile_of_files hfiles
  have hplaces : made.filePlaces = t.filePlaces := congrArg (List.map Prod.fst) hfiles
  constructor
  case grows => exact fun w hw => h.grows w ((hfolders w).2 (.inl hw))
  case folders =>
    intro w hw
    rw [← hsame]
    refine (h.folders w hw).elim (fun hmade => ?_) .inr
    exact ((hfolders w).1 hmade).imp_right fun hway => ⟨hway, hopen.1.2 w hway⟩
  case files =>
    intro w hw
    rw [← hsame]
    refine (h.files w hw).imp_right fun ⟨hplace, hno⟩ =>
      ⟨hplace, Bool.eq_false_iff.2 fun hyes => ?_⟩
    rw [(hfolders w).2 (.inl hyes)] at hno
    cases hno
  case lost =>
    intro w hw
    exact h.lost w ((hsame w).trans hw)
  case places =>
    intro P hP
    simp only [← hsame, ← hplaces]
    exact h.places P hP

/-- Beside a folder with the source's name, what was written can go without any folder. -/
theorem grows_erase_temporary (h : t.isFolder (place ⟨a ++ ".rs"⟩) = true) :
    t.Grows (t.erase (place (Disk.temporary ⟨a ++ ".rs"⟩))) := by
  obtain ⟨dir, last, hplace, htemp, -⟩ := exists_places a
  rw [hplace] at h
  rw [htemp]
  exact grows_erase (by simp) h

theorem grows_rename_temporary (t : FileTree) (a : String) (content : Option String) :
    t.Grows ((t.erase (place (Disk.temporary ⟨a ++ ".rs"⟩))).insert (place ⟨a ++ ".rs"⟩)
      content) := by
  obtain ⟨dir, last, hplace, htemp, -⟩ := exists_places a
  rw [hplace, htemp]
  exact grows_rename t dir _ _ _

/-- No file in the way is lost with the one where a new text is written first. -/
theorem isFile_erase_temporary {path : FilePath} (hopen : Open t [] path.folder.components)
    {w : Place} (hw : t.isFile w = true) :
    (t.erase (place (Disk.temporary path))).isFile w = true ∨
      (w = place (Disk.temporary path) ∧ w ∉ ways path) := by
  have hfree : w ∉ ways path := fun hway => Bool.eq_false_iff.1 (hopen.1.2 w hway) hw
  rw [isFile_erase]
  exact (em _).symm.imp (fun hne => ⟨hne, hw⟩) fun heq => ⟨heq, hfree⟩

/-- Where a folder has the source's name, what was written beside it is all that goes. -/
theorem ReplaceStep.of_erased (hopen : Open t [] (FilePath.folder ⟨a ++ ".rs"⟩).components)
    (hfolder : t.isFolder (place ⟨a ++ ".rs"⟩) = true) :
    ReplaceStep t (t.erase (place (Disk.temporary ⟨a ++ ".rs"⟩))) ⟨a ++ ".rs"⟩ := by
  constructor
  case grows => exact grows_erase_temporary hfolder
  case folders => exact fun w hw => .inl (isFolder_of_erase hw)
  case files => exact fun w hw => .inl ((isFile_erase ..).1 hw).2
  case lost => exact fun w hw => isFile_erase_temporary hopen hw
  case places =>
    intro P hP
    refine ⟨[], ?_, fun _ h => nomatch h⟩
    rw [filter_filePlaces_erase t hP, List.append_nil]

/-- Where none has it, the source comes in place of what was written beside it. -/
theorem ReplaceStep.of_renamed (hopen : Open t [] (FilePath.folder ⟨a ++ ".rs"⟩).components)
    (hname : t.isFolder (place ⟨a ++ ".rs"⟩) = false) (content : Option String) :
    ReplaceStep t ((t.erase (place (Disk.temporary ⟨a ++ ".rs"⟩))).insert (place ⟨a ++ ".rs"⟩)
      content) ⟨a ++ ".rs"⟩ := by
  constructor
  case grows => exact grows_rename_temporary t a content
  case folders =>
    intro w hw
    obtain ⟨dir, last, hplace, -, hwhere⟩ := exists_places a
    refine .inl ((isFolder_insert hw).elim isFolder_of_erase fun ⟨hpre, hne⟩ => ?_)
    -- what the new file lies in, its folder lies in or is
    rw [hplace] at hpre hne
    exact isFolder_of_isPrefix ((List.prefix_concat_iff.1 hpre).resolve_left hne)
      (hwhere t hopen).1
  case files =>
    intro w hw
    rcases (isFile_insert ..).1 hw with rfl | hw
    · exact .inr ⟨rfl, hname⟩
    · exact .inl ((isFile_erase ..).1 hw).2
  case lost =>
    intro w hw
    exact (isFile_erase_temporary hopen hw).imp_left fun h => (isFile_insert ..).2 (.inr h)
  case places =>
    intro P hP
    rw [filePlaces_insert]
    split
    · exact ⟨[], by rw [filter_filePlaces_erase t hP, List.append_nil], fun _ h => nomatch h⟩
    · next hnew =>
      rw [List.filter_append, filter_filePlaces_erase t hP]
      refine ⟨_, rfl, fun w hw => ?_⟩
      obtain rfl := List.mem_singleton.1 (List.mem_filter.1 hw).1
      exact ⟨rfl, Bool.eq_false_iff.2 fun hfile =>
        hnew ((isFile_erase ..).2 ⟨place_ne_temporary a, hfile⟩)⟩

/-- Replacing a source changes no more than that, and leaves the way as it needs it. -/
theorem replace_step (t : FileTree) (a text : String) :
    ReplaceStep t (FileTree.disk.replace ⟨a ++ ".rs"⟩ text t).2 ⟨a ++ ".rs"⟩ := by
  by_cases hpass : Passable t [] (FilePath.folder ⟨a ++ ".rs"⟩).components
  · obtain ⟨made, hfiles, hopen, hfolders, hrun⟩ := replace_of_passable hpass text
    rw [hrun, replace_eq hopen]
    refine .of_made hfiles hopen hfolders ?_
    split
    · exact .refl _ _
    · split
      · next hfolder => exact .of_erased hopen hfolder
      · next hname => exact .of_renamed hopen (Bool.eq_false_iff.2 hname) _
  · rw [replace_of_not_passable hpass]
    exact .refl _ _

/-! ## Lasting sources -/

/-- What stands in a tree is so that a result comes of replacing a source, and hardly anything else
changes. -/
inductive Lasting (t : FileTree) (path : FilePath) : Except FilePath Unit → Prop
  | blocked : ¬Passable t [] path.folder.components → Lasting t path (.error path.folder)
  | occupied : Open t [] path.folder.components →
      t.isFolder (place (Disk.temporary path)) = true →
      Lasting t path (.error (Disk.temporary path))
  | folder : Open t [] path.folder.components →
      t.isFolder (place (Disk.temporary path)) = false →
      t.isFile (place (Disk.temporary path)) = false →
      t.isFolder (place path) = true → Lasting t path (.error path)
  | done : Open t [] path.folder.components →
      t.isFolder (place (Disk.temporary path)) = false →
      t.isFile (place (Disk.temporary path)) = false →
      t.isFolder (place path) = false → t.isFile (place path) = true → Lasting t path (.ok ())

theorem Open.step {t t' : FileTree} {path other : FilePath}
    (h : Open t [] path.folder.components) (hstep : ReplaceStep t t' other) :
    Open t' [] path.folder.components := by
  refine ⟨⟨h.1.1, fun w hw => Bool.eq_false_iff.2 fun hfile => ?_⟩,
    fun w hw => hstep.grows w (h.2 w hw)⟩
  rcases hstep.files w hfile with hold | ⟨-, hno⟩
  · exact absurd hold (Bool.eq_false_iff.1 (h.1.2 w hw))
  · exact absurd (h.2 w hw) (Bool.eq_false_iff.1 hno)

/-- No file is left where a new text was written first. -/
theorem isFile_renamed_temporary (t : FileTree) (a : String) (content : Option String) :
    ((t.erase (place (Disk.temporary ⟨a ++ ".rs"⟩))).insert (place ⟨a ++ ".rs"⟩) content).isFile
      (place (Disk.temporary ⟨a ++ ".rs"⟩)) = false := by
  rw [Bool.eq_false_iff, Ne, isFile_insert, isFile_erase]
  rintro (heq | ⟨hne, -⟩)
  · exact place_ne_temporary a heq.symm
  · exact hne rfl

/-- No folder comes there. -/
theorem isFolder_renamed_temporary
    (hfree : t.isFolder (place (Disk.temporary ⟨a ++ ".rs"⟩)) = false) (content : Option String) :
    ((t.erase (place (Disk.temporary ⟨a ++ ".rs"⟩))).insert (place ⟨a ++ ".rs"⟩) content).isFolder
      (place (Disk.temporary ⟨a ++ ".rs"⟩)) = false := by
  refine Bool.eq_false_iff.2 fun h => ?_
  rcases isFolder_insert h with h | ⟨hpre, -⟩
  · exact Bool.eq_false_iff.1 hfree (isFolder_of_erase h)
  · exact (places_apart a).2 hpre

/-- A source that was replaced is lasting. -/
theorem lasting_replace (t : FileTree) (a text : String) :
    Lasting (FileTree.disk.replace ⟨a ++ ".rs"⟩ text t).2 ⟨a ++ ".rs"⟩
      (FileTree.disk.replace ⟨a ++ ".rs"⟩ text t).1 := by
  by_cases hpass : Passable t [] (FilePath.folder ⟨a ++ ".rs"⟩).components
  · obtain ⟨made, -, hopen, -, hrun⟩ := replace_of_passable hpass text
    rw [hrun, replace_eq hopen]
    split
    · next hfolder => exact .occupied hopen hfolder
    · next hoccupied =>
      have hfree := Bool.eq_false_iff.2 hoccupied
      split
      · next hfolder =>
        have hstep := ReplaceStep.of_erased hopen hfolder
        exact .folder (hopen.step hstep)
          (Bool.eq_false_iff.2 fun h => hoccupied (isFolder_of_erase h))
          (isFile_erase_self made _) (hstep.grows _ hfolder)
      · next hname =>
        have hstep := ReplaceStep.of_renamed hopen (Bool.eq_false_iff.2 hname) (some text)
        refine .done (hopen.step hstep) (isFolder_renamed_temporary hfree _)
          (isFile_renamed_temporary made a _) (Bool.eq_false_iff.2 fun h => ?_)
          ((isFile_insert ..).2 (.inl rfl))
        exact (isFolder_insert h).elim (fun h => hname (isFolder_of_erase h))
          fun ⟨_, hne⟩ => hne rfl
  · rw [replace_of_not_passable hpass]
    exact .blocked hpass

/-- Where a new text is written first, nothing comes while another source is replaced, unless the
way to that one needs a folder there. -/
theorem ReplaceStep.nothing_beside {t t' : FileTree} {a b : String}
    (hstep : ReplaceStep t t' ⟨b ++ ".rs"⟩)
    (hway : place (Disk.temporary ⟨a ++ ".rs"⟩) ∉ ways ⟨b ++ ".rs"⟩)
    (hfolder : t.isFolder (place (Disk.temporary ⟨a ++ ".rs"⟩)) = false)
    (hfile : t.isFile (place (Disk.temporary ⟨a ++ ".rs"⟩)) = false) :
    t'.isFolder (place (Disk.temporary ⟨a ++ ".rs"⟩)) = false ∧
      t'.isFile (place (Disk.temporary ⟨a ++ ".rs"⟩)) = false := by
  refine ⟨Bool.eq_false_iff.2 fun hnew => ?_, Bool.eq_false_iff.2 fun hnew => ?_⟩
  · exact (hstep.folders _ hnew).elim (Bool.eq_false_iff.1 hfolder) fun h => hway h.1
  · rcases hstep.files _ hnew with hold | ⟨heq, -⟩
    · exact Bool.eq_false_iff.1 hfile hold
    · obtain ⟨dir, last, -, htemp, -⟩ := exists_places a
      obtain ⟨dir', last', hplace', -⟩ := exists_places b
      rw [htemp, hplace'] at heq
      exact not_isSourcePlace dir last ⟨dir', last', heq⟩

/-- A lasting source stays so while another is replaced, unless one of the two is written first
where the other's way needs a folder, and its own does not. -/
theorem Lasting.step {t t' : FileTree} {a b : String} {result : Except FilePath Unit}
    (h : Lasting t ⟨a ++ ".rs"⟩ result) (hstep : ReplaceStep t t' ⟨b ++ ".rs"⟩)
    (hown : place (Disk.temporary ⟨a ++ ".rs"⟩) ∈ ways ⟨b ++ ".rs"⟩ →
      place (Disk.temporary ⟨a ++ ".rs"⟩) ∈ ways ⟨a ++ ".rs"⟩)
    (hother : place (Disk.temporary ⟨b ++ ".rs"⟩) ∈ ways ⟨a ++ ".rs"⟩ →
      place (Disk.temporary ⟨b ++ ".rs"⟩) ∈ ways ⟨b ++ ".rs"⟩) :
    Lasting t' ⟨a ++ ".rs"⟩ result := by
  -- where its own way leads there would be a folder already
  have hbeside (hopen : Open t [] (FilePath.folder ⟨a ++ ".rs"⟩).components)
      (hfree : t.isFolder (place (Disk.temporary ⟨a ++ ".rs"⟩)) = false) :=
    hstep.nothing_beside (a := a)
      (fun hway => Bool.eq_false_iff.1 hfree (hopen.2 _ (hown hway))) hfree
  cases h with
  | blocked hblocked =>
    refine .blocked fun hpass => hblocked ⟨hpass.1, fun w hw => Bool.eq_false_iff.2 fun hfile => ?_⟩
    rcases hstep.lost w hfile with hstill | ⟨rfl, hno⟩
    · exact absurd hstill (Bool.eq_false_iff.1 (hpass.2 w hw))
    · exact hno (hother hw)
  | occupied hopen hfolder => exact .occupied (hopen.step hstep) (hstep.grows _ hfolder)
  | folder hopen hfree hfile hfolder =>
    obtain ⟨hfree', hfile'⟩ := hbeside hopen hfree hfile
    exact .folder (hopen.step hstep) hfree' hfile' (hstep.grows _ hfolder)
  | done hopen hfree hfile hfolder hthere =>
    obtain ⟨hfree', hfile'⟩ := hbeside hopen hfree hfile
    refine .done (hopen.step hstep) hfree' hfile' (Bool.eq_false_iff.2 fun hnew => ?_) ?_
    · rcases hstep.folders _ hnew with hold | ⟨-, hno⟩
      · exact Bool.eq_false_iff.1 hfolder hold
      · exact absurd hthere (Bool.eq_false_iff.1 hno)
    · refine (hstep.lost _ hthere).resolve_right fun ⟨heq, _⟩ => ?_
      obtain ⟨dir, last, hplace, -⟩ := exists_places a
      obtain ⟨dir', last', -, htemp', -⟩ := exists_places b
      rw [hplace, htemp'] at heq
      exact not_isSourcePlace dir' last' ⟨dir, last, heq.symm⟩

/-- The same places hold files, and the same are folders. -/
structure SameShape (t t' : FileTree) : Prop where
  isFile : ∀ p, t.isFile p = t'.isFile p
  isFolder : ∀ p, t.isFolder p = t'.isFolder p

theorem SameShape.refl (t : FileTree) : SameShape t t := ⟨fun _ => rfl, fun _ => rfl⟩

theorem SameShape.trans {t t' t'' : FileTree} (h : SameShape t t') (h' : SameShape t' t'') :
    SameShape t t'' :=
  ⟨fun p => (h.isFile p).trans (h'.isFile p), fun p => (h.isFolder p).trans (h'.isFolder p)⟩

theorem SameShape.isOpen {t t' : FileTree} {at' : Place} {cs : List Component}
    (h : SameShape t t') (hopen : Open t' at' cs) : Open t at' cs :=
  ⟨⟨hopen.1.1, fun w hw => (h.isFile w).trans (hopen.1.2 w hw)⟩,
    fun w hw => (h.isFolder w).trans (hopen.2 w hw)⟩

theorem SameShape.lasting {t t' : FileTree} {path : FilePath} {result : Except FilePath Unit}
    (h : SameShape t t') (hlasting : Lasting t' path result) : Lasting t path result := by
  cases hlasting with
  | blocked hblocked =>
    refine .blocked fun hpass => hblocked ⟨hpass.1, fun w hw => ?_⟩
    exact (h.isFile w).symm.trans (hpass.2 w hw)
  | occupied hopen hfolder => exact .occupied (h.isOpen hopen) ((h.isFolder _).trans hfolder)
  | folder hopen hfree hfile hfolder =>
    exact .folder (h.isOpen hopen) ((h.isFolder _).trans hfree) ((h.isFile _).trans hfile)
      ((h.isFolder _).trans hfolder)
  | done hopen hfree hfile hfolder hthere =>
    exact .done (h.isOpen hopen) ((h.isFolder _).trans hfree) ((h.isFile _).trans hfile)
      ((h.isFolder _).trans hfolder) ((h.isFile _).trans hthere)

/-- A new text in a file that is there changes no place. -/
theorem sameShape_insert {t : FileTree} {p : Place} (h : t.isFile p = true)
    (content : Option String) : SameShape (t.insert p content) t := by
  have hfiles (q : Place) : (t.insert p content).isFile q = t.isFile q := by
    rw [Bool.eq_iff_iff, isFile_insert, or_iff_right_of_imp]
    rintro rfl
    exact h
  refine ⟨hfiles, fun q => ?_⟩
  rw [Bool.eq_iff_iff, isFolder_iff, isFolder_iff, folders_insert]
  simp only [hfiles]

/-- What is left when a lasting source is replaced: its file holds the new text, if there is one. -/
def renewed (t : FileTree) (path : FilePath) (text : String) : Except FilePath Unit → FileTree
  | .ok _ => t.insert (place path) (some text)
  | .error _ => t

/-- The same comes again of replacing a lasting source. -/
theorem Lasting.replace_eq {t : FileTree} {a : String} {result : Except FilePath Unit}
    (h : Lasting t ⟨a ++ ".rs"⟩ result) (text : String) :
    FileTree.disk.replace ⟨a ++ ".rs"⟩ text t = (result, t.renewed ⟨a ++ ".rs"⟩ text result) := by
  cases h with
  | blocked hblocked => exact replace_of_not_passable hblocked text
  | occupied hopen hfolder => rw [FileTree.replace_eq hopen, if_pos hfolder, renewed]
  | folder hopen hfree hfile hfolder =>
    rw [FileTree.replace_eq hopen, if_neg (Bool.eq_false_iff.1 hfree), if_pos hfolder,
      erase_eq_self hfile, renewed]
  | done hopen hfree hfile hfolder hthere =>
    rw [FileTree.replace_eq hopen, if_neg (Bool.eq_false_iff.1 hfree),
      if_neg (Bool.eq_false_iff.1 hfolder), erase_eq_self hfile, renewed]

theorem Lasting.renewed_sameShape {t : FileTree} {path : FilePath}
    {result : Except FilePath Unit} (h : Lasting t path result) (text : String) :
    SameShape (t.renewed path text result) t := by
  cases h with
  | done _ _ _ _ hthere => exact sameShape_insert hthere _
  | _ => exact .refl t

theorem file?_renewed (t : FileTree) (path : FilePath) (text : String)
    (result : Except FilePath Unit) (q : Place) :
    (t.renewed path text result).file? q
      = if result.isOk = true ∧ q = place path then some (some text) else t.file? q := by
  cases result with
  | error at' => rfl
  | ok done =>
    rw [renewed, file?_insert]
    exact if_congr (iff_and_self.2 fun _ => rfl) rfl rfl

end FileTree

end TypedSettings
