import TypedSettings.Naming
import TypedSettings.Text.Sorted
import TypedSettings.Unit.Actions
import TypedSettings.Walk

/-!
Units: the code that implements one root. A unit has a structure that holds the store, the actions,
and for every interface of the walk a block with its accessors.
-/

namespace TypedSettings

open Source Source.Token

/-- The implementation of one interface. -/
structure TraitImpl where
  interface : String
  path : CodePath
  methods : List GeneratedMethod

/-- The code that implements one root. -/
structure GeneratedUnit where
  root : String
  structName : String
  /-- the file, below the directory for units -/
  file : FilePath
  /-- what is imported beyond what every unit imports -/
  imports : List CodePath
  definition : List Token
  actions : List GeneratedMethod
  impls : List TraitImpl

namespace Emit

/-! ## The structure -/

/-- The call that opens the store. -/
def openCall (store : StoreConfig) : List Token :=
  match store.name with
  | some name =>
    code ["context", ".", "shared_preferences"]
      ++ arguments [Stmt.quoted name, code ["StoreMode", "::", store.mode.variant]]
  | none => code ["context", ".", "default_shared_preferences"] ++ arguments []

/-- An attribute that documents what follows. -/
def docAttribute (text : Token) : List Token :=
  code ["#"] ++ [delimited .bracket (code ["doc", "="] ++ [text])]

/-- The type of the store that a structure holds. -/
def storeType : List Token := code ["Arc", "<", "dyn", "SharedPreferences", ">"]

/-- The structure and its constructor. -/
def definition (structName root : String) (store : StoreConfig) : List Token :=
  docAttribute (.literal (Text.Quoted.encode ("Preference store implementation of `" ++ root
      ++ "`.")) {})
    ++ code ["pub", "struct", structName]
    ++ Stmt.braced (code ["preferences", ":"] ++ storeType ++ code [","])
    ++ code ["impl", structName]
    ++ Stmt.braced
      (docAttribute (.literal "r\" Opens the backing store through `context`.\"" {})
        ++ code ["pub", "fn", "new"] ++ arguments [code ["context", ":", "&", "dyn", "Context"]]
        ++ code ["->", "Self"]
        ++ Stmt.braced (code ["Self"]
            ++ Stmt.braced (code ["preferences", ":"] ++ openCall store ++ code [","])))

/-! ## Imports -/

/-- What the store makes a unit import. -/
def storeImports (store : StoreConfig) : List String :=
  if store.name.isSome then ["prefs_api::StoreMode"] else []

/-- What a unit imports beyond what every unit does, sorted, each once. -/
def unitImports (t : Target) (store : StoreConfig) (specs : List AccessorSpec) : List String :=
  Text.Sorted.ofList
    (storeImports store ++ specs.flatMap (fun s => accessorImports s t) ++ publishImports t)

/-! ## Assembly -/

/-- The block of one interface: its accessors, in order. -/
def impl (t : Target) (specs : List AccessorSpec) (interface : String) :
    Except EmitFault TraitImpl := do
  let methods ← (specs.filter fun s => s.interface == interface).mapM fun s => accessor s t
  return ⟨interface, ← CodePath.read interface, methods⟩

/-- The unit of a root, from its walk. -/
def unit (t : Target) (root : InterfaceDecl) (walk : Walk) : Except EmitFault GeneratedUnit := do
  let simple := QualifiedName.simple root.name
  let structName ← identifier (Naming.structName simple)
  let store := root.store.getD {}
  let impls ← walk.interfaces.mapM (impl t walk.outcome.specs)
  let actions ← actions t walk.outcome.keys
  let imports ← (unitImports t store walk.outcome.specs).mapM CodePath.read
  return {
    root := root.name
    structName
    file := Naming.unitPath root.name
    imports
    definition := definition structName simple store
    actions
    impls }

end Emit

namespace GeneratedUnit

/-- A block that implements an interface. -/
def implTokens (structName : String) (path : List Token) (methods : List GeneratedMethod) :
    List Token :=
  code ["impl"] ++ path ++ code ["for", structName]
    ++ Stmt.braced (methods.flatMap GeneratedMethod.tokens)

/-- What every unit imports. -/
def coreImports : List Token :=
  code ["#"] ++ [delimited .bracket (code ["allow"] ++ arguments [code ["unused_imports"]])]
    ++ code ["use", "super", "::", "*", ";"]
    ++ code ["use", "std", "::", "sync", "::", "Arc", ";"]
    ++ code ["use", "prefs_api", "::"]
    ++ Stmt.braced (separate (code [","])
        [code ["Context"], code ["OnChangeListener"], code ["PreferenceActions"],
         code ["SharedPreferences"]])
    ++ code [";"]

/-- The tokens of a unit. -/
def tokens (u : GeneratedUnit) : List Token :=
  coreImports
    ++ u.imports.flatMap (fun p => code ["use"] ++ p.tokens ++ code [";"])
    ++ u.definition
    ++ implTokens u.structName (code ["PreferenceActions"]) u.actions
    ++ u.impls.flatMap fun i => implTokens u.structName i.path.tokens i.methods

def accessorCount (u : GeneratedUnit) : Nat := (u.impls.flatMap TraitImpl.methods).length

end GeneratedUnit

end TypedSettings
