import TypedSettings.Accessor.Spec

/-!
The keys of one root: which accessor reads each key and which one writes it. Accessors stand in the
order they were registered, and within a role no key stands twice.
-/

namespace TypedSettings

structure KeySpace where
  getters : List AccessorSpec := []
  putters : List AccessorSpec := []
deriving Repr

namespace KeySpace

def ofRole (k : KeySpace) : Role → List AccessorSpec
  | .getter => k.getters
  | .putter => k.putters

/-- The accessor that holds a key in a list. -/
def find? (specs : List AccessorSpec) (key : String) : Option AccessorSpec :=
  specs.find? fun s => s.key == key

def contains (specs : List AccessorSpec) (key : String) : Bool := (find? specs key).isSome

/-- Adds an accessor at the end of its role. -/
def push (k : KeySpace) (s : AccessorSpec) : KeySpace :=
  match s.role with
  | .getter => { k with getters := k.getters ++ [s] }
  | .putter => { k with putters := k.putters ++ [s] }

/-- Adds an accessor, unless its role already has its key. -/
def register (k : KeySpace) (s : AccessorSpec) : Except Problem KeySpace :=
  match find? (k.ofRole s.role) s.key with
  | some first => .error (.duplicateKey s.key s.role first.method s.method s.attribution)
  | none => .ok (k.push s)

/-- Makes a method an accessor and registers it. -/
def classify (serializer : Option String) (interface : String) (m : MethodDecl) (k : KeySpace) :
    Except Problem (AccessorSpec × KeySpace) := do
  let spec ← AccessorSpec.ofMethod serializer interface m
  return (spec, ← k.register spec)

/-- Every key: those of getters, then those that only putters have. -/
def definedKeys (k : KeySpace) : List String :=
  k.getters.map AccessorSpec.key
    ++ (k.putters.filter fun s => !contains k.getters s.key).map AccessorSpec.key

/-- The getter and the putter of each key that has both, in the order of getters. -/
def pairs (k : KeySpace) : List (AccessorSpec × AccessorSpec) :=
  k.getters.filterMap fun g => (find? k.putters g.key).map fun p => (g, p)

def isEmpty (k : KeySpace) : Bool := k.getters.isEmpty && k.putters.isEmpty

/-! ## Consistency -/

/-- The keys of a role that the other role lacks. -/
def asymmetries (k : KeySpace) (role : Role) : List Warning :=
  ((k.ofRole role).filter fun s => !contains (k.ofRole role.opposite) s.key).map fun s =>
    .keyAsymmetry s.key role.opposite s.attribution

/-- The keys that are read and written as different types. -/
def mismatches (k : KeySpace) : List Warning :=
  (k.pairs.filter fun p => p.1.type != p.2.type).map fun p =>
    .typeMismatch p.1.key p.1.type p.2.type p.2.attribution

/-- What is worth a remark in a key space. -/
def warnings (k : KeySpace) : List Warning :=
  k.asymmetries .getter ++ k.asymmetries .putter ++ k.mismatches

end KeySpace

end TypedSettings
