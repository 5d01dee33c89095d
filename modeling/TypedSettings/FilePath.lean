import TypedSettings.Text.CodeRange

/-!
File paths of a Unix system. A path keeps its text; the components are read off it: `/` in front
is the root, `.` counts only in front, and empty components vanish.
-/

namespace TypedSettings

/-- One step of a path. -/
inductive Component where
  | root
  | current
  | parent
  | normal (name : String)
deriving DecidableEq, Repr

/-- How a component is written. -/
def Component.text : Component → String
  | .root => "/"
  | .current => "."
  | .parent => ".."
  | .normal name => name

structure FilePath where
  text : String
deriving DecidableEq, Repr

namespace FilePath

/-- The named pieces between slashes, the empty ones left out. -/
def pieces (p : FilePath) : List String :=
  ((Text.splitAtChar '/' p.text.toList).map String.ofList).filter (· ≠ "")

def isAbsolute (p : FilePath) : Bool := p.text.toList.head? == some '/'

/-- A piece that stands after another component; a dot vanishes there. -/
def inner? (piece : String) : Option Component :=
  if piece = "." then none
  else if piece = ".." then some .parent
  else some (.normal piece)

/-- The components of a path, from the left. -/
def components (p : FilePath) : List Component :=
  if p.isAbsolute then .root :: p.pieces.filterMap inner?
  else if p.pieces.head? = some "." then .current :: p.pieces.filterMap inner?
  else p.pieces.filterMap inner?

/-- Appends a path to a directory; an absolute path replaces it. -/
def join (dir path : FilePath) : FilePath :=
  if path.isAbsolute then path
  else if dir.text = "" ∨ dir.text.toList.getLast? = some '/' then ⟨dir.text ++ path.text⟩
  else ⟨dir.text ++ "/" ++ path.text⟩

/-- Joins names from the left, beginning with the empty path. -/
def ofNames (names : List String) : FilePath :=
  names.foldl (fun dir name => dir.join ⟨name⟩) ⟨""⟩

/-- The text of a list of components. -/
def ofComponents : List Component → FilePath
  | .root :: rest => ⟨"/" ++ "/".intercalate (rest.map Component.text)⟩
  | cs => ⟨"/".intercalate (cs.map Component.text)⟩

/-- The last component, if it is a name. -/
def fileName? (p : FilePath) : Option String :=
  match p.components.getLast? with
  | some (.normal name) => some name
  | _ => none

/-- The components above the last one; the root and the empty path have none. -/
def parent? (p : FilePath) : Option (List Component) :=
  match p.components.getLast? with
  | none => none
  | some .root => none
  | some _ => some p.components.dropLast

/-- Removes slashes and dots at the end of a text that is given backwards. -/
def trimEnd : List Char → List Char
  | ['/'] => ['/']
  | '/' :: rest => trimEnd rest
  | '.' :: '/' :: rest => trimEnd ('/' :: rest)
  | cs => cs
termination_by cs => cs.length

/-- The text in front of the last component of a file's path. -/
def folder (p : FilePath) : FilePath :=
  ⟨String.ofList (trimEnd (p.text.toList.reverse.dropWhile (· ≠ '/'))).reverse⟩

/-- Splits a file name at its last dot, if one stands after the first character. -/
def splitName (name : String) : String × Option String :=
  if name = ".." then (name, none)
  else
    let backwards := name.toList.reverse
    let ext := backwards.takeWhile (· ≠ '.')
    match backwards.dropWhile (· ≠ '.') with
    | [] => (name, none)
    | [_] => (name, none)
    | _ :: stem => (String.ofList stem.reverse, some (String.ofList ext.reverse))

def fileStem? (p : FilePath) : Option String := p.fileName?.map fun n => (splitName n).1

def extension? (p : FilePath) : Option String := p.fileName?.bind fun n => (splitName n).2

/-- The rest of `path` below `dir`, component by component. -/
def below? (dir path : List Component) : Option (List Component) :=
  match dir, path with
  | [], rest => some rest
  | _ :: _, [] => none
  | d :: ds, c :: cs => if d = c then below? ds cs else none

end FilePath

end TypedSettings
