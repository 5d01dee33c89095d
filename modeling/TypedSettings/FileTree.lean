import TypedSettings.Disk

/-!
File trees: the files below a folder, which is also the folder that relative paths start from.
Nothing lies outside of it.
-/

namespace TypedSettings

/-- Where something lies in a tree: the names that lead to it. -/
abbrev Place := List String

/-- Files with their texts; a file that holds no text has none. `folders` are the folders that were
made, beside those that hold files. -/
structure FileTree where
  files : List (Place × Option String) := []
  folders : List Place := []
deriving DecidableEq, Repr

namespace FileTree

/-- What a file holds, if there is one at a place. -/
def file? (t : FileTree) (p : Place) : Option (Option String) :=
  (t.files.find? fun f => f.1 == p).map Prod.snd

def isFile (t : FileTree) (p : Place) : Bool := (t.file? p).isSome

/-- A folder holds a file somewhere below it, or was made. -/
def isFolder (t : FileTree) (p : Place) : Bool :=
  p.isEmpty || t.folders.any (fun q => p.isPrefixOf q)
    || t.files.any fun f => p.isPrefixOf f.1 && p != f.1

/-! ## Paths -/

/-- Follows components from a place. What a path goes up from is a folder. -/
def follow (t : FileTree) : Place → List Component → Option Place
  | at', [] => some at'
  | _, .root :: _ => none
  | at', .current :: rest => follow t at' rest
  | at', .normal name :: rest => follow t (at' ++ [name]) rest
  | at', .parent :: rest =>
    if at'.isEmpty || !t.isFolder at' then none else follow t at'.dropLast rest

/-- The place that a path names. A path that ends in a slash names folders alone. -/
def locate (t : FileTree) (path : FilePath) : Option Place := do
  if path.text = "" then none
  let p ← follow t [] path.components
  if path.text.toList.getLast? = some '/' && t.isFile p then none else some p

/-! ## Changes -/

def insert (t : FileTree) (p : Place) (content : Option String) : FileTree :=
  if t.isFile p then
    { t with files := t.files.map fun f => if f.1 = p then (p, content) else f }
  else { t with files := t.files ++ [(p, content)] }

def erase (t : FileTree) (p : Place) : FileTree :=
  { t with files := t.files.filter fun f => f.1 != p }

/-- Whether a file may stand at a place: its folder is there, and it is no folder itself. -/
def takesFile (t : FileTree) (p : Place) : Bool :=
  !p.isEmpty && t.isFolder p.dropLast && !t.isFolder p

def write? (t : FileTree) (path : FilePath) (text : String) : Option FileTree := do
  let p ← t.locate path
  if t.takesFile p then some (t.insert p (some text)) else none

def rename? (t : FileTree) (path target : FilePath) : Option FileTree := do
  let p ← t.locate path
  let q ← t.locate target
  let content ← t.file? p
  if p = q then some t
  else if t.takesFile q then some ((t.erase p).insert q content) else none

/-- Makes the folders along components; a file is in the way. -/
def makeFoldersFrom (t : FileTree) : Place → List Component → Option FileTree
  | _, [] => some t
  | _, .root :: _ => none
  | at', .current :: rest => makeFoldersFrom t at' rest
  | at', .normal name :: rest =>
    let p := at' ++ [name]
    if t.isFile p then none
    else makeFoldersFrom (if t.isFolder p then t else { t with folders := t.folders ++ [p] }) p rest
  | at', .parent :: rest =>
    if at'.isEmpty then none else makeFoldersFrom t at'.dropLast rest

def makeFolders? (t : FileTree) (path : FilePath) : Option FileTree :=
  t.makeFoldersFrom [] path.components

/-! ## As a disk -/

/-- Makes a change, if it can be made. -/
def change (f : FileTree → Option FileTree) : StateM FileTree Bool := fun t =>
  match f t with
  | some t' => (true, t')
  | none => (false, t)

/-- The file tree as a disk. -/
def disk : Disk (StateM FileTree) where
  isFolder path := fun t => ((t.locate path).any t.isFolder, t)
  isFile path := fun t => ((t.locate path).any t.isFile, t)
  read path := fun t => (((t.locate path).bind t.file?).join, t)
  filesBelow path := fun t =>
    (match t.locate path with
      | some p => t.files.filterMap fun f =>
          if p.isPrefixOf f.1 then some (f.1.drop p.length) else none
      | none => [], t)
  makeFolders path := change fun t => t.makeFolders? path
  write path text := change fun t => t.write? path text
  rename path target := change fun t => t.rename? path target
  remove path := fun t => ((), (t.locate path).elim t t.erase)

end FileTree

end TypedSettings
