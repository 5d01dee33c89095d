import TypedSettings.Unit.Text

/-!
Reports: what became of each root. A report has the unit's text, if there is one, and what was
found on the way, errors before warnings.
-/

namespace TypedSettings

/-- What became of one root. -/
structure UnitReport where
  root : String
  /-- the unit's file, below the directory for units -/
  file : FilePath
  source : Option String
  diagnostics : List Diagnostic
  /-- where the unit was written, if it was -/
  written : Option FilePath := none
deriving DecidableEq, Repr

namespace UnitReport

def errors (r : UnitReport) : List Diagnostic := r.diagnostics.filter Diagnostic.isError

def warnings (r : UnitReport) : List Diagnostic := r.diagnostics.filter fun d => !d.isError

def hasErrors (r : UnitReport) : Bool := r.diagnostics.any Diagnostic.isError

/-- Whether every accessor is there and nothing failed. -/
def isComplete (r : UnitReport) : Bool := r.source.isSome && !r.hasErrors

/-- The report on a root, from its walk and what came of its unit. -/
def ofRendering (root : InterfaceDecl) (walk : Walk) (rendered : Except EmitFault String) :
    UnitReport :=
  let problems := walk.outcome.problems ++
    match rendered with
    | .ok _ => []
    | .error fault => [.notEmitted fault]
  { root := root.name
    file := Naming.unitPath root.name
    source := rendered.toOption
    diagnostics := problems.map .error ++ walk.outcome.keys.warnings.map .warning }

/-- Generates the unit of a root. A fatal fault leaves no report. -/
def ofRoot (w : World) (t : Target) (root : InterfaceDecl) : Except EmitFault UnitReport :=
  let walk := Walk.ofRoot w root
  match Emit.unit t root walk >>= GeneratedUnit.text with
  | .ok text => .ok (ofRendering root walk (.ok text))
  | .error fault =>
    if fault.isFatal then .error fault else .ok (ofRendering root walk (.error fault))

end UnitReport

/-- What became of all roots, in the order they are declared. -/
structure Batch where
  units : List UnitReport := []
deriving DecidableEq, Repr

namespace Batch

def errorCount (b : Batch) : Nat := (b.units.flatMap UnitReport.errors).length

def warningCount (b : Batch) : Nat := (b.units.flatMap UnitReport.warnings).length

def hasErrors (b : Batch) : Bool := b.units.any UnitReport.hasErrors

def isEmpty (b : Batch) : Bool := b.units.isEmpty

/-- Generates the unit of every root, and writes none. -/
def ofWorld (w : World) (t : Target) : Except EmitFault Batch := do
  return ⟨← w.declarations.roots.mapM (UnitReport.ofRoot w t)⟩

end Batch

end TypedSettings
