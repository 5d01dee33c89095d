import TypedSettings.Config
import TypedSettings.Disk
import TypedSettings.Report

/-!
Projects: a configuration, the interfaces that the sources declare, and the external ones. A project
is opened from a disk, and its units are written to one; a unit is written when nothing is wrong
with it.
-/

namespace TypedSettings

variable {m : Type → Type} [Monad m]

/-! ## Sources -/

namespace SourceFolder

/-- Folders whose files are no sources. -/
def excludedNames : List String := ["target", ".git"]

/-- Whether the names that lead to a file lead to a source. -/
def isSource (names : List String) : Bool :=
  !(names.dropLast.any excludedNames.contains)
    && (names.getLast?.bind fun n => (FilePath.splitName n).2) == some "rs"

/-- The sources among the files below a folder, in the order of their names. A folder that is
excluded by its own name has none. -/
def sources (root : FilePath) (below : List (List String)) : List FilePath :=
  if root.fileName?.any excludedNames.contains then []
  else
    ((below.filter isSource).mergeSort fun a b => !decide (b < a)).map fun names =>
      names.foldl (fun dir name => dir.join ⟨name⟩) root

/-- Declares what the sources of a folder declare, up to the first that cannot be read. -/
def declare (root : FilePath) (texts : List (FilePath × Option String)) :
    Except Problem Declarations :=
  texts.foldlM (fun d f =>
    match f.2 with
    | none => .error (.unreadable f.1.text .system)
    | some text => d.addSource ⟨Naming.moduleOfFile root f.1, some f.1.text, text⟩) {}

end SourceFolder

/-- Reads files. -/
def Disk.readAll (disk : Disk m) (paths : List FilePath) : m (List (FilePath × Option String)) :=
  paths.mapM fun path => do return (path, ← disk.read path)

/-- The declarations of a folder of sources. -/
def Declarations.ofFolder (disk : Disk m) (root : FilePath) : m (Except Problem Declarations) := do
  if ← disk.isFolder root then
    let texts ← disk.readAll (SourceFolder.sources root (← disk.filesBelow root))
    return SourceFolder.declare root texts
  else return .error (.unreadable root.text .noSourceDirectory)

/-! ## Manifests -/

/-- Loads manifests in order, up to the first that cannot be read. -/
def Registry.loadAll (r : Registry) : List (FilePath × Option String) → Except Problem Registry
  | [] => .ok r
  | (path, none) :: _ => .error (.unreadable path.text .system)
  | (path, some text) :: rest =>
    match r.load path.text text with
    | (r', .ok _) => r'.loadAll rest
    | (_, .error p) => .error p

/-! ## Configurations -/

/-- Reads a configuration file. -/
def Config.load (disk : Disk m) (path : FilePath) : m (Except Problem Config) := do
  match ← disk.read path with
  | none => return .error (.unreadable path.text .system)
  | some text =>
    match Config.read text with
    | .ok c => return .ok c
    | .error fault => return .error (.invalidConfig (.inFile path.text fault))

/-! ## Projects -/

structure Project where
  config : Config
  declarations : Declarations
  registry : Registry

namespace Project

/-- Opens the project of a configuration. -/
def ofConfig (disk : Disk m) (config : Config) : m (Except Problem Project) := do
  match config.validate with
  | .error fault => return .error (.invalidConfig fault)
  | .ok _ =>
    match ← Declarations.ofFolder disk config.source with
    | .error p => return .error p
    | .ok declarations =>
      let texts ← disk.readAll config.manifests
      let start : Registry := if config.bundled then .bundled else {}
      return (start.loadAll texts).map fun registry => { config, declarations, registry }

def world (p : Project) : World := ⟨p.declarations, p.registry, p.config.serializer⟩

/-- Generates the unit of a root. -/
def report (p : Project) (root : InterfaceDecl) : Except EmitFault UnitReport :=
  UnitReport.ofRoot p.world p.config.target root

/-- Generates every unit and writes none. -/
def dryRun (p : Project) : Except EmitFault Batch := Batch.ofWorld p.world p.config.target

end Project

/-! ## Writing -/

/-- Notes what came of writing a unit. -/
def UnitReport.noteWriting (u : UnitReport) (path : FilePath) : Except FilePath Unit → UnitReport
  | .ok _ => { u with written := some path }
  | .error at' => { u with diagnostics := .error (.unwritable at'.text) :: u.diagnostics }

/-- Writes a unit below the output folder, if nothing is wrong with it. -/
def UnitReport.write (disk : Disk m) (output : FilePath) (u : UnitReport) : m UnitReport :=
  match u.source with
  | none => return u
  | some text => do
    if u.isComplete then
      let path := output.join u.file
      return u.noteWriting path (← disk.replace path text)
    else return u

namespace Project

/-- Generates and writes the units of roots, one after the other. -/
def writeRoots (disk : Disk m) (p : Project) :
    List InterfaceDecl → m (Except EmitFault (List UnitReport))
  | [] => return .ok []
  | root :: rest =>
    match p.report root with
    | .error fault => return .error fault
    | .ok u => do
      let u ← u.write disk p.config.output
      return (← writeRoots disk p rest).map fun us => u :: us

/-- Generates every unit, and writes those with which nothing is wrong. -/
def run (disk : Disk m) (p : Project) : m (Except EmitFault Batch) := do
  return (← writeRoots disk p p.declarations.roots).map Batch.mk

end Project

end TypedSettings
