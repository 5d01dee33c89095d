import TypedSettings.Problem
import TypedSettings.Text.Toml

/-!
Interfaces that no source declares. They are listed in manifests, with signatures alone; a later
entry replaces an earlier one of its name.
-/

namespace TypedSettings

open TypedSettings.Text

structure Registry where
  interfaces : List ExternalInterface := []
deriving Repr

namespace Registry

def get? (r : Registry) (name : String) : Option ExternalInterface :=
  r.interfaces.find? fun i => i.name == name

def contains (r : Registry) (name : String) : Bool := (r.get? name).isSome

def size (r : Registry) : Nat := r.interfaces.length

/-- Adds an interface in the place of the one of its name, or at the end. -/
def insert (r : Registry) (i : ExternalInterface) : Registry :=
  if r.contains i.name then
    ⟨r.interfaces.map fun j => if j.name = i.name then i else j⟩
  else ⟨r.interfaces ++ [i]⟩

end Registry

/-! ## Manifests -/

namespace Manifest

/-- A parameter with the text of its type. -/
structure ParamEntry where
  name : String
  type : String
deriving DecidableEq, Repr

structure MethodEntry where
  name : String
  returns : Option String
  params : List ParamEntry
deriving DecidableEq, Repr

structure InterfaceEntry where
  name : String
  ancestors : List String
  methods : List MethodEntry
deriving DecidableEq, Repr

/-- The elements under a field that may be missing. -/
def elements? (v : Option Toml) : Option (List Toml) :=
  match v with
  | none => some []
  | some v => v.elements?

def paramEntry? (v : Toml) : Option ParamEntry := do
  let field ← v.fields? ["name", "type"]
  return ⟨← (← field "name").string?, ← (← field "type").string?⟩

def methodEntry? (v : Toml) : Option MethodEntry := do
  let field ← v.fields? ["name", "returns", "params"]
  let returns ← match field "returns" with
    | none => pure none
    | some v => v.string?.map some
  return ⟨← (← field "name").string?, returns, ← (← elements? (field "params")).mapM paramEntry?⟩

def interfaceEntry? (v : Toml) : Option InterfaceEntry := do
  let field ← v.fields? ["name", "extends", "method"]
  return ⟨← (← field "name").string?, ← (← elements? (field "extends")).mapM Toml.string?,
    ← (← elements? (field "method")).mapM methodEntry?⟩

/-- The entries of a manifest. -/
def read? (text : String) : Option (List InterfaceEntry) := do
  let field ← (Toml.table .header (← Toml.read? text)).fields? ["interface"]
  (← elements? (field "interface")).mapM interfaceEntry?

/-- The type that a text in an entry names. -/
def typeOf (interface method text : String) : Except ManifestFault TypeRef :=
  match TypeRef.read text with
  | .ok type => .ok type
  | .error _ => .error (.type interface method text)

/-- The method that an entry describes. -/
def method (interface : String) (m : MethodEntry) : Except ManifestFault MethodDecl := do
  let returns ← match m.returns with
    | some text => typeOf interface m.name text
    | none => pure .unit
  let params ← m.params.mapM fun p => do return ⟨p.name, ← typeOf interface m.name p.type⟩
  return { name := m.name, params, returns }

/-- The interface that an entry describes. -/
def interface (i : InterfaceEntry) : Except ManifestFault ExternalInterface := do
  return ⟨i.name, i.ancestors, ← i.methods.mapM (method i.name)⟩

end Manifest

namespace Registry

/-- Adds the interfaces of entries, up to the first that is unsound. -/
def addEntries (r : Registry) : List Manifest.InterfaceEntry → Registry × Option ManifestFault
  | [] => (r, none)
  | e :: rest =>
    match Manifest.interface e with
    | .ok i => addEntries (r.insert i) rest
    | .error fault => (r, some fault)

/-- Loads the text of a manifest, and gives the number of its interfaces. The interfaces before an
unsound one stay loaded. -/
def load (r : Registry) (origin text : String) : Registry × Except Problem Nat :=
  match Manifest.read? text with
  | none => (r, .error (.invalidManifest origin .malformed))
  | some entries =>
    match r.addEntries entries with
    | (r', none) => (r', .ok entries.length)
    | (r', some fault) => (r', .error (.invalidManifest origin fault))

/-! ## The interfaces that come along -/

/-- A pair of methods that read and write one setting. -/
def property (name param type : String) : List MethodDecl :=
  [{ name, returns := .named type },
   { name := "set_" ++ name, params := [⟨param, .named type⟩] }]

/-- The interfaces that are known without a manifest. -/
def bundled : Registry :=
  ⟨[⟨"prefs_api::common::OnboardingPreferences", [],
      property "onboarding_completed" "completed" "bool"
        ++ property "launch_count" "count" "i32"⟩,
    ⟨"prefs_api::common::ThemePreferences", [], property "theme" "theme" "String"⟩,
    ⟨"prefs_api::common::SyncPreferences", [], property "last_sync_millis" "millis" "i64"⟩]⟩

end Registry

end TypedSettings
