import TypedSettings.FilePath

/-!
Disks: what is asked of a place that holds files. A file is replaced in two steps, so that it holds
its old text or its new text and nothing between: the new text is written beside it, and then takes
its name.
-/

namespace TypedSettings

/-- The operations of a disk. One that changes it says whether it was done. -/
structure Disk (m : Type → Type) where
  isFolder : FilePath → m Bool
  isFile : FilePath → m Bool
  /-- the text of a file, unless it is missing or holds no text -/
  read : FilePath → m (Option String)
  /-- the files below a folder, each as the names that lead to it -/
  filesBelow : FilePath → m (List (List String))
  /-- makes a folder and those above it, as far as they are missing -/
  makeFolders : FilePath → m Bool
  write : FilePath → String → m Bool
  rename : FilePath → FilePath → m Bool
  remove : FilePath → m Unit

namespace Disk

variable {m : Type → Type} [Monad m]

/-- Where the new text of a file is written first. -/
def temporary (path : FilePath) : FilePath := ⟨path.text ++ ".tmp"⟩

/-- Gives a file a new text. On failure the result is the path at which it failed. -/
def replace (disk : Disk m) (path : FilePath) (text : String) : m (Except FilePath Unit) := do
  let folder := path.folder
  unless folder.text = "" do
    unless ← disk.makeFolders folder do return .error folder
  unless ← disk.write (temporary path) text do return .error (temporary path)
  unless ← disk.rename (temporary path) path do
    disk.remove (temporary path)
    return .error path
  return .ok ()

end Disk

end TypedSettings
