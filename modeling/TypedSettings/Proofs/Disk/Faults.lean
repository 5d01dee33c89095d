import TypedSettings.Proofs.Disk.Replacing

/-!
Replacing a file on a disk that fails. Whichever steps fail, and however far they came, a source
holds its whole new text when it is said to, and else what it held before. Two things may be left:
what was written beside the source, where writing it failed half way or it could not be removed; and
a folder at the source's own place, where the way to the source leads through it.

* `failing`: the tree as a disk that fails at some steps.
* `prepared`: what is there once the folders were made, as far as they could be.
* `put_eq`: what comes of the steps after that, in closed form.
* `replace_all_or_nothing`: what is left after a replacement, whatever fails.
-/

namespace TypedSettings

namespace FileTree

/-! ## Disks that fail -/

/-- What is left where a file was not written: nothing new, or the file with what it holds by
then. -/
inductive WriteFault
  | nothing
  | torn (content : Option String)
deriving DecidableEq, Repr

/-- The steps at which a disk fails. -/
structure Faults where
  /-- folders are made along so many components and no further, as where a file is in the way -/
  folders : Option Nat := none
  write : Option WriteFault := none
  rename : Bool := false
  remove : Bool := false
deriving DecidableEq, Repr

namespace Faults

/-- The components along which folders are made. -/
def way (f : Faults) (folder : FilePath) : List Component :=
  match f.folders with
  | none => folder.components
  | some n => folder.components.take n

end Faults

/-- What a write leaves that fails. -/
def tear (t : FileTree) (path : FilePath) : WriteFault → FileTree
  | .nothing => t
  | .torn content =>
    match t.locate path with
    | some p => if t.takesFile p then t.insert p content else t
    | none => t

/-- The file tree as a disk that fails at some steps. -/
def failing (f : Faults) : Disk (StateM FileTree) :=
  { disk with
    makeFolders := fun path => match f.folders with
      | none => disk.makeFolders path
      | some _ => fun t => (false, (t.makeFoldersFrom [] (f.way path)).getD t)
    write := fun path text => match f.write with
      | none => disk.write path text
      | some fault => fun t => (false, t.tear path fault)
    rename := fun path target => if f.rename then pure false else disk.rename path target
    remove := fun path => if f.remove then pure () else disk.remove path }

/-- A disk without faults. -/
theorem failing_nothing : failing {} = disk := rfl

variable {f : Faults} {t t' made : FileTree} {path : FilePath} {a : String}

/-! ## Making folders -/

namespace Faults

/-- The way to a source is gone to its end. -/
def Arrives (f : Faults) (path : FilePath) : Prop := f.folders = none ∨ path.folder.text = ""

theorem Arrives.way_eq (h : f.Arrives path) : f.way path.folder = path.folder.components := by
  unfold way
  split
  · rfl
  · next hfault =>
    rcases h with hnone | htext
    · cases hfault.symm.trans hnone
    · rw [FilePath.components_eq_nil htext, List.take_nil]

end Faults

/-- The folders on the way are there, as far as they were made: no file has changed, and no other
folder is new. -/
structure Prepared (f : Faults) (t : FileTree) (path : FilePath) (made : Bool × FileTree) :
    Prop where
  files : made.2.files = t.files
  folders : ∀ w, made.2.isFolder w = true ↔ t.isFolder w = true ∨
    (Passable t [] (f.way path.folder) ∧ w ∈ passed [] (f.way path.folder))
  done : made.1 = true ↔ f.Arrives path ∧ Passable t [] path.folder.components
  isOpen : made.1 = true → Open made.2 [] path.folder.components

/-- Folders are made along components exactly where no file is in the way, and no others. -/
theorem makeFoldersFrom_root (t : FileTree) (cs : List Component) :
    ((t.makeFoldersFrom [] cs).isSome = true ↔ Passable t [] cs) ∧
      (Passable t [] cs → Open ((t.makeFoldersFrom [] cs).getD t) [] cs) ∧
      ((t.makeFoldersFrom [] cs).getD t).files = t.files ∧
      ∀ w, ((t.makeFoldersFrom [] cs).getD t).isFolder w = true ↔
        t.isFolder w = true ∨ (Passable t [] cs ∧ w ∈ passed [] cs) := by
  by_cases hpass : Passable t [] cs
  · obtain ⟨made, hmade, hfiles, hopen, hfolders⟩ :=
      makeFoldersFrom_of_passable (isFolder_iff.2 (.inl rfl)) hpass
    rw [hmade, Option.getD_some]
    exact ⟨iff_of_true rfl hpass, fun _ => hopen, hfiles, by simpa [hpass] using hfolders⟩
  · have hnone : t.makeFoldersFrom [] cs = none :=
      Option.eq_none_iff_forall_ne_some.2 fun made hmade =>
        hpass (passable_of_makeFoldersFrom hmade)
    rw [hnone, Option.getD_none]
    exact ⟨iff_of_false Bool.false_ne_true hpass, (absurd · hpass), rfl, by simp [hpass]⟩

theorem prepared (f : Faults) (t : FileTree) (path : FilePath) :
    Prepared f t path (prepare (failing f) path t) := by
  obtain ⟨hdone, hopen, -, -⟩ := makeFoldersFrom_root t path.folder.components
  obtain ⟨-, -, hfiles, hfolders⟩ := makeFoldersFrom_root t (f.way path.folder)
  by_cases htext : path.folder.text = ""
  · -- there is no folder, and no way to it
    have harrives : f.Arrives path := .inr htext
    rw [harrives.way_eq] at hfiles hfolders
    rw [prepare, if_pos htext]
    have hnone : (t.makeFoldersFrom [] path.folder.components).getD t = t := by
      rw [FilePath.components_eq_nil htext]
      rfl
    rw [hnone] at hopen hfolders
    have hpass : Passable t [] path.folder.components := hdone.1 <| by
      rw [FilePath.components_eq_nil htext]
      rfl
    exact ⟨rfl, harrives.way_eq ▸ hfolders, iff_of_true rfl ⟨harrives, hpass⟩, fun _ => hopen hpass⟩
  · rw [prepare, if_neg htext]
    cases hfault : f.folders with
    | some n =>
      have hrun : (failing f).makeFolders path.folder t
          = (false, (t.makeFoldersFrom [] (f.way path.folder)).getD t) := by
        simp only [failing, hfault]
      rw [hrun]
      have hshort : ¬f.Arrives path := by
        rintro (hnone | hempty)
        · cases hfault.symm.trans hnone
        · exact htext hempty
      exact ⟨hfiles, hfolders, iff_of_false Bool.false_ne_true fun h => hshort h.1,
        fun h => absurd h Bool.false_ne_true⟩
    | none =>
      have harrives : f.Arrives path := .inl hfault
      have hrun : (failing f).makeFolders path.folder t
          = ((t.makeFoldersFrom [] path.folder.components).isSome,
            (t.makeFoldersFrom [] path.folder.components).getD t) := by
        simp only [failing, hfault, disk, change, makeFolders?]
        cases t.makeFoldersFrom [] path.folder.components <;> rfl
      rw [harrives.way_eq] at hfiles hfolders
      rw [hrun]
      exact ⟨hfiles, harrives.way_eq ▸ hfolders, by rw [hdone, and_iff_right harrives],
        fun h => hopen (hdone.1 h)⟩

/-! ## Writing beside a source -/

theorem tear_temporary (h : Open made [] (FilePath.folder ⟨a ++ ".rs"⟩).components)
    (fault : WriteFault) :
    made.tear (Disk.temporary ⟨a ++ ".rs"⟩) fault =
      if made.isFolder (place (Disk.temporary ⟨a ++ ".rs"⟩)) then made
      else match fault with
        | .nothing => made
        | .torn content => made.insert (place (Disk.temporary ⟨a ++ ".rs"⟩)) content := by
  cases fault with
  | nothing => exact (ite_self _).symm
  | torn content =>
    obtain ⟨dir, last, -, htemp, hwhere⟩ := exists_places a
    obtain ⟨hdir, -, hbeside⟩ := hwhere made h
    simp only [tear, hbeside, htemp]
    cases hoccupied : made.isFolder (dir ++ [last ++ ".rs.tmp"]) with
    | true => rw [if_neg (by rw [takesFile_iff, hoccupied]; simp), if_pos rfl]
    | false => rw [if_pos (takesFile_iff.2 ⟨hdir, hoccupied⟩), if_neg Bool.false_ne_true]

/-- What comes of a replacement once the folders are there. -/
theorem put_eq (f : Faults) (h : Open made [] (FilePath.folder ⟨a ++ ".rs"⟩).components)
    (text : String) :
    put (failing f) ⟨a ++ ".rs"⟩ text made =
      if made.isFolder (place (Disk.temporary ⟨a ++ ".rs"⟩)) then
        (.error (Disk.temporary ⟨a ++ ".rs"⟩), made)
      else match f.write with
        | some .nothing => (.error (Disk.temporary ⟨a ++ ".rs"⟩), made)
        | some (.torn content) => (.error (Disk.temporary ⟨a ++ ".rs"⟩),
            made.insert (place (Disk.temporary ⟨a ++ ".rs"⟩)) content)
        | none =>
          if f.rename ∨ made.isFolder (place ⟨a ++ ".rs"⟩) then
            (.error ⟨a ++ ".rs"⟩,
              if f.remove then made.insert (place (Disk.temporary ⟨a ++ ".rs"⟩)) (some text)
              else made.erase (place (Disk.temporary ⟨a ++ ".rs"⟩)))
          else (.ok (), (made.erase (place (Disk.temporary ⟨a ++ ".rs"⟩))).insert
            (place ⟨a ++ ".rs"⟩) (some text)) := by
  cases hwrite : f.write with
  | some fault =>
    have hput : put (failing f) ⟨a ++ ".rs"⟩ text made
        = (.error (Disk.temporary ⟨a ++ ".rs"⟩),
          made.tear (Disk.temporary ⟨a ++ ".rs"⟩) fault) := by
      simp only [put, failing, hwrite]
    rw [hput, tear_temporary h]
    cases fault <;> split <;> rfl
  | none =>
    have hwritten : (failing f).write (Disk.temporary ⟨a ++ ".rs"⟩) text made
        = change (·.write? (Disk.temporary ⟨a ++ ".rs"⟩) text) made := by
      simp only [failing, hwrite]
      rfl
    rw [put, hwritten, change, write?_temporary h]
    cases hfree : made.isFolder (place (Disk.temporary ⟨a ++ ".rs"⟩)) with
    | true => rfl
    | false =>
      simp only [Bool.false_eq_true, if_false]
      have hrenamed (written : FileTree) : (failing f).rename (Disk.temporary ⟨a ++ ".rs"⟩)
          ⟨a ++ ".rs"⟩ written = if f.rename then (false, written)
            else change (·.rename? (Disk.temporary ⟨a ++ ".rs"⟩) ⟨a ++ ".rs"⟩) written := by
        simp only [failing]
        split <;> rfl
      have hremoved : ((failing f).remove (Disk.temporary ⟨a ++ ".rs"⟩)
            (made.insert (place (Disk.temporary ⟨a ++ ".rs"⟩)) (some text))).2
          = if f.remove then made.insert (place (Disk.temporary ⟨a ++ ".rs"⟩)) (some text)
            else made.erase (place (Disk.temporary ⟨a ++ ".rs"⟩)) := by
        simp only [failing]
        split
        · rfl
        · rw [remove_temporary h hfree]
      rw [hrenamed, change, rename?_temporary h hfree]
      cases f.rename with
      | true => simp [hremoved]
      | false =>
        cases made.isFolder (place ⟨a ++ ".rs"⟩) with
        | true => simp [hremoved]
        | false => simp

/-! ## What is left -/

namespace Faults

variable (f : Faults) (t : FileTree) (path : FilePath)

/-- The new text can be written beside the source: its folder is there or is made, and no folder
stands where the new text is written first. -/
def Reaches : Prop :=
  f.Arrives path ∧ Passable t [] path.folder.components ∧
    t.isFolder (place (Disk.temporary path)) = false ∧ place (Disk.temporary path) ∉ ways path

/-- What was written cannot take the source's name: a folder has it, which may be one that the way
to the source needs. -/
def Hinders : Prop :=
  f.rename = true ∨ t.isFolder (place path) = true ∨ place path ∈ ways path

/-- The source is replaced. -/
def Succeeds : Prop := f.Reaches t path ∧ f.write = none ∧ ¬f.Hinders t path

/-- What was written beside the source stays there: it was not written to its end, or could neither
take the source's name nor be removed. -/
def Leaves : Prop :=
  f.Reaches t path ∧ ((∃ content, f.write = some (.torn content)) ∨
    (f.write = none ∧ f.Hinders t path ∧ f.remove = true))

/-- A folder is made where the source should stand. -/
def Blocks : Prop :=
  t.isFolder (place path) = false ∧ Passable t [] (f.way path.folder) ∧
    place path ∈ passed [] (f.way path.folder)

end Faults

/-- What is left of `t` after a source was to be replaced: all of it or nothing, but for a folder at
its place and for what was written beside it, each of which is left under exact conditions. -/
structure AllOrNothing (f : Faults) (t t' : FileTree) (path : FilePath) (text : String)
    (result : Except FilePath Unit) : Prop where
  succeeds : result = .ok () ↔ f.Succeeds t path
  whole : result = .ok () → t'.locate path = some (place path) ∧
    t'.file? (place path) = some (some text) ∧ t'.isFile (place (Disk.temporary path)) = false
  unchanged : result ≠ .ok () → t'.file? (place path) = t.file? (place path) ∧
    (t'.isFolder (place path) = t.isFolder (place path) ↔ ¬f.Blocks t path)
  leaves : t.isFile (place (Disk.temporary path)) = false →
    (t'.isFile (place (Disk.temporary path)) = true ↔ f.Leaves t path)
  others : ∀ q, q ≠ place path → q ≠ place (Disk.temporary path) → t'.file? q = t.file? q

/-- All but what is written beside a source is as it was. -/
structure KeptBeside (t t' : FileTree) (path : FilePath) : Prop where
  files : ∀ q, q ≠ place (Disk.temporary path) → t'.file? q = t.file? q
  folder : t'.isFolder (place path) = t.isFolder (place path)

theorem keptBeside_insert (t : FileTree) (a : String) (content : Option String) :
    KeptBeside t (t.insert (place (Disk.temporary ⟨a ++ ".rs"⟩)) content) ⟨a ++ ".rs"⟩ :=
  ⟨fun q hq => by rw [file?_insert, if_neg hq], isFolder_insert_beside t a content⟩

theorem keptBeside_erase (t : FileTree) (a : String) :
    KeptBeside t (t.erase (place (Disk.temporary ⟨a ++ ".rs"⟩))) ⟨a ++ ".rs"⟩ := by
  refine ⟨fun q hq => by rw [file?_erase, if_neg hq], ?_⟩
  rw [Bool.eq_iff_iff]
  exact ⟨isFolder_of_erase, fun hfolder => grows_erase_temporary hfolder _ hfolder⟩

section

variable {made : Bool × FileTree} {text : String}

/-- A folder at the source's place was there, or is made on the way. -/
theorem Prepared.blocks_iff (h : Prepared f t path made) :
    made.2.isFolder (place path) = t.isFolder (place path) ↔ ¬f.Blocks t path := by
  rw [Faults.Blocks, Bool.eq_iff_iff, h.folders]
  cases t.isFolder (place path) <;> simp

/-- Once the whole way is there, its folders are the new ones. -/
theorem Prepared.isFolder_iff (h : Prepared f t path made) (hdone : made.1 = true) (w : Place) :
    made.2.isFolder w = true ↔ t.isFolder w = true ∨ w ∈ ways path := by
  obtain ⟨harrives, hpass⟩ := h.done.1 hdone
  rw [h.folders, harrives.way_eq, and_iff_right hpass]
  rfl

theorem Prepared.reaches_iff (h : Prepared f t path made) (hdone : made.1 = true) :
    f.Reaches t path ↔ made.2.isFolder (place (Disk.temporary path)) = false := by
  obtain ⟨harrives, hpass⟩ := h.done.1 hdone
  rw [Faults.Reaches, and_iff_right harrives, and_iff_right hpass, ← Bool.not_eq_true,
    ← Bool.not_eq_true, h.isFolder_iff hdone, not_or]

theorem Prepared.hinders_iff (h : Prepared f t path made) (hdone : made.1 = true) :
    f.Hinders t path ↔ f.rename = true ∨ made.2.isFolder (place path) = true := by
  rw [Faults.Hinders, h.isFolder_iff hdone]

/-- No step changed more than what is written beside the source. -/
theorem AllOrNothing.of_error {at' : FilePath} (h : Prepared f t ⟨a ++ ".rs"⟩ made)
    (hkept : KeptBeside made.2 t' ⟨a ++ ".rs"⟩) (hfails : ¬f.Succeeds t ⟨a ++ ".rs"⟩)
    (hleaves : t.isFile (place (Disk.temporary ⟨a ++ ".rs"⟩)) = false →
      (t'.isFile (place (Disk.temporary ⟨a ++ ".rs"⟩)) = true ↔ f.Leaves t ⟨a ++ ".rs"⟩)) :
    AllOrNothing f t t' ⟨a ++ ".rs"⟩ text (.error at') := by
  have hsame (q : Place) (hq : q ≠ place (Disk.temporary ⟨a ++ ".rs"⟩)) :
      t'.file? q = t.file? q := (hkept.files q hq).trans (file?_of_files h.files q)
  refine ⟨iff_of_false nofun hfails, nofun, fun _ => ⟨hsame _ (place_ne_temporary a), ?_⟩, hleaves,
    fun q _ hq => hsame q hq⟩
  rw [hkept.folder, h.blocks_iff]

/-- Nothing was written. -/
theorem AllOrNothing.of_made {at' : FilePath} (h : Prepared f t ⟨a ++ ".rs"⟩ made)
    (hfails : ¬f.Succeeds t ⟨a ++ ".rs"⟩) (hclean : ¬f.Leaves t ⟨a ++ ".rs"⟩) :
    AllOrNothing f t made.2 ⟨a ++ ".rs"⟩ text (.error at') := by
  refine .of_error h ⟨fun _ _ => rfl, rfl⟩ hfails fun hnone => ?_
  rw [isFile_of_files h.files, hnone]
  exact iff_of_false Bool.false_ne_true hclean

/-- What was written took the source's name. -/
theorem AllOrNothing.of_renamed (h : Prepared f t ⟨a ++ ".rs"⟩ made) (hdone : made.1 = true)
    (hsucceeds : f.Succeeds t ⟨a ++ ".rs"⟩) :
    AllOrNothing f t ((made.2.erase (place (Disk.temporary ⟨a ++ ".rs"⟩))).insert
      (place ⟨a ++ ".rs"⟩) (some text)) ⟨a ++ ".rs"⟩ text (.ok ()) := by
  have hgone := isFile_renamed_temporary made.2 a (some text)
  have hclean : ¬f.Leaves t ⟨a ++ ".rs"⟩ := by
    rintro ⟨-, ⟨content, hwrite⟩ | ⟨-, hhinders, -⟩⟩
    · cases hwrite.symm.trans hsucceeds.2.1
    · exact hsucceeds.2.2 hhinders
  refine ⟨iff_of_true rfl hsucceeds, fun _ => ⟨?_, ?_, hgone⟩, fun h => absurd rfl h,
    fun _ => ?_, ?_⟩
  · refine locate_mono (grows_rename_temporary made.2 a (some text)) ?_
    obtain ⟨dir, last, hplace, -, hwhere⟩ := exists_places a
    rw [hplace]
    exact (hwhere _ (h.isOpen hdone)).2.1
  · rw [file?_insert, if_pos rfl]
  · rw [hgone]
    exact iff_of_false Bool.false_ne_true hclean
  · intro q hq hbeside
    rw [file?_insert, if_neg hq, file?_erase, if_neg hbeside, file?_of_files h.files]

end

/-- Once the whole way is there. -/
theorem put_all_or_nothing {made : Bool × FileTree} (h : Prepared f t ⟨a ++ ".rs"⟩ made)
    (hdone : made.1 = true) (text : String) :
    AllOrNothing f t (put (failing f) ⟨a ++ ".rs"⟩ text made.2).2 ⟨a ++ ".rs"⟩ text
      (put (failing f) ⟨a ++ ".rs"⟩ text made.2).1 := by
  rw [put_eq f (h.isOpen hdone)]
  by_cases hreaches : f.Reaches t ⟨a ++ ".rs"⟩
  · rw [(h.reaches_iff hdone).1 hreaches, if_neg Bool.false_ne_true]
    rcases hwrite : f.write with _ | ⟨_ | content⟩
    case some.nothing =>
      exact .of_made h (by simp [Faults.Succeeds, hwrite]) (by simp [Faults.Leaves, hwrite])
    case some.torn =>
      refine .of_error h (keptBeside_insert _ a content) (by simp [Faults.Succeeds, hwrite]) ?_
      exact fun _ => iff_of_true ((isFile_insert ..).2 (.inl rfl))
        ⟨hreaches, .inl ⟨content, hwrite⟩⟩
    case none =>
      dsimp only
      split
      · next hfault =>
        have hhinders := (h.hinders_iff hdone).2 hfault
        have hfails : ¬f.Succeeds t ⟨a ++ ".rs"⟩ := fun hsucceeds => hsucceeds.2.2 hhinders
        split
        · next hremove =>
          refine .of_error h (keptBeside_insert _ a (some text)) hfails fun _ => ?_
          exact iff_of_true ((isFile_insert ..).2 (.inl rfl))
            ⟨hreaches, .inr ⟨hwrite, hhinders, hremove⟩⟩
        · next hremove =>
          refine .of_error h (keptBeside_erase _ a) hfails fun _ => ?_
          exact iff_of_false (fun hfile => ((isFile_erase ..).1 hfile).1 rfl)
            (by simp [Faults.Leaves, hwrite, hremove])
      · next hfree =>
        exact .of_renamed h hdone
          ⟨hreaches, hwrite, fun hhinders => hfree ((h.hinders_iff hdone).1 hhinders)⟩
  · rw [if_pos (Bool.not_eq_false _ ▸ mt (h.reaches_iff hdone).2 hreaches)]
    exact .of_made h (fun hsucceeds => hreaches hsucceeds.1) fun hleaves => hreaches hleaves.1

/-- Whichever steps fail, a source that is said to be replaced holds its whole new text, and one
that is not holds what it held before. The file of every unit is a source. -/
theorem replace_all_or_nothing (f : Faults) (t : FileTree) (a text : String) :
    AllOrNothing f t ((failing f).replace ⟨a ++ ".rs"⟩ text t).2 ⟨a ++ ".rs"⟩ text
      ((failing f).replace ⟨a ++ ".rs"⟩ text t).1 := by
  have h := prepared f t ⟨a ++ ".rs"⟩
  rw [replace_run]
  split
  · next hdone => exact put_all_or_nothing h hdone text
  · next hshort =>
    have hreaches : ¬f.Reaches t ⟨a ++ ".rs"⟩ := fun hreaches =>
      hshort (h.done.2 ⟨hreaches.1, hreaches.2.1⟩)
    exact .of_made h (fun hsucceeds => hreaches hsucceeds.1) fun hleaves => hreaches hleaves.1

/-- What was written in part stays beside its source. -/
example : ((failing { write := some (.torn none) }).replace ⟨"lamp_impl.rs"⟩ "mod lamp;" {}).2
    = { files := [(["lamp_impl.rs.tmp"], none)] } := by
  decide +kernel

/-- Without any fault, a source becomes a folder where the way to it leads through its place. -/
example : (disk.replace ⟨"lamp_impl.rs/../lamp_impl.rs"⟩ "mod lamp;" {}).2
    = { folders := [["lamp_impl.rs"]] } := by
  decide +kernel

end FileTree

end TypedSettings
