import TypedSettings.CommandLine

/-!
The program: a run of the command line on the disk of the machine.
-/

namespace TypedSettings.Main

/-- Whether an action succeeds. -/
def succeeds {α : Type} (action : IO α) : IO Bool := do
  match ← action.toBaseIO with
  | .ok _ => return true
  | .error _ => return false

/-- What an action gives, unless it fails. -/
def result? {α : Type} (action : IO α) : IO (Option α) := do
  match ← action.toBaseIO with
  | .ok a => return some a
  | .error _ => return none

/-- The files below a folder, each as the names that lead to it. Links are not followed, and a
folder that cannot be read counts as empty. -/
partial def filesBelow (folder : String) : IO (List (List String)) := do
  match ← result? ((← IO.currentDir) / folder).readDir with
  | none => return []
  | some entries =>
    let found ← entries.toList.mapM fun entry => do
      match ← result? entry.path.symlinkMetadata with
      | none => return []
      | some data =>
        match data.type with
        | .dir =>
          let below ← filesBelow (folder ++ "/" ++ entry.fileName)
          return below.map fun names => entry.fileName :: names
        | .file => return [[entry.fileName]]
        | _ => return []
    return found.flatten

/-- The disk of the machine. -/
def disk : Disk IO where
  isFolder path := do
    if path.text.isEmpty then return false
    ((← IO.currentDir) / path.text).isDir
  isFile path := do
    match ← result? ((← IO.currentDir) / path.text).metadata with
    | some data => return data.type == .file
    | none => return false
  read path := result? (IO.FS.readFile path.text)
  filesBelow path := filesBelow path.text
  makeFolders path := succeeds (IO.FS.createDirAll path.text)
  write path text := succeeds (IO.FS.writeFile path.text text)
  rename path target := succeeds (IO.FS.rename path.text target.text)
  remove path := do
    let _ ← succeeds (IO.FS.removeFile path.text)

end TypedSettings.Main

def main (args : List String) : IO UInt32 := do
  let outcome ← TypedSettings.CommandLine.run TypedSettings.Main.disk args
  (← IO.getStdout).putStr outcome.output
  (← IO.getStderr).putStr outcome.messages
  return outcome.exit.toUInt32
