import TypedSettings.Proofs.Lists
import TypedSettings.Unit.Assembly

/-!
What a unit needs: names that are identifiers, types and paths that can be read, and a serializer.
The needs stand in the order in which the unit's code is put together, and a unit is refused for
the first that is not met.

* `accessor_fault`: what the method of an accessor is refused for.
* `unit_fault`: what a unit is refused for.
* `fault?_fatal`: of all needs only names are fatal.
-/

namespace TypedSettings

open Source

/-- Something that generated code needs. -/
inductive Need where
  /-- a name that stands as an identifier -/
  | name (s : String)
  | type (t : TypeRef)
  | path (s : String)
  /-- a serializer in the configuration -/
  | serializer
deriving DecidableEq, Repr

namespace Need

/-- What code is refused for that has the need. -/
def fault? : Need → Option EmitFault
  | name s => faultOf (Emit.identifier s)
  | type t => faultOf (Emit.typeTokens t)
  | path s => faultOf (CodePath.read s)
  | serializer => some .noSerializer

/-- What code is refused for that has all these needs. -/
def firstFault? (needs : List Need) : Option EmitFault := needs.findSome? fault?

theorem firstFault?_cons (n : Need) (needs : List Need) :
    firstFault? (n :: needs) = n.fault?.or (firstFault? needs) := by
  unfold firstFault?
  rw [List.findSome?_cons]
  cases n.fault? <;> rfl

theorem firstFault?_append (a b : List Need) :
    firstFault? (a ++ b) = (firstFault? a).or (firstFault? b) :=
  List.findSome?_append

theorem firstFault?_flatMap {α : Type} (f : α → List Need) (as : List α) :
    firstFault? (as.flatMap f) = as.findSome? fun a => firstFault? (f a) := by
  induction as with
  | nil => rfl
  | cons a as ih =>
    rw [List.flatMap_cons, firstFault?_append, ih, List.findSome?_cons]
    cases firstFault? (f a) <;> rfl

/-- A name is refused alone for not being an identifier. -/
theorem fault?_name (s : String) :
    (name s).fault? = if Emit.isIdentifier s then none else some (.notIdentifier s) := by
  rw [fault?, Emit.identifier]
  split <;> rfl

/-- Of all needs only names are fatal. -/
theorem fault?_fatal {n : Need} {fault : EmitFault} (h : n.fault? = some fault)
    (hfatal : fault.isFatal = true) :
    ∃ s, n = name s ∧ Emit.isIdentifier s = false ∧ fault = .notIdentifier s := by
  cases n with
  | name s =>
    rw [fault?_name] at h
    split at h
    · cases h
    · next hs => exact ⟨s, rfl, Bool.eq_false_iff.2 hs, (Option.some.inj h).symm⟩
  | type t =>
    rw [fault?, Emit.typeTokens] at h
    cases hread : readType t.text <;> rw [hread] at h <;> cases h
    cases hfatal
  | path s =>
    rw [fault?, CodePath.read] at h
    cases hread : readPath s <;> rw [hread] at h <;> cases h
    cases hfatal
  | serializer =>
    cases h
    cases hfatal

end Need

namespace Emit

variable (t : Target)

/-! ## Accessors -/

/-- What code needs that calls the serializer. -/
def serializerNeeds : List Need :=
  match t.serializer with
  | none => [.serializer]
  | some path => [.name (QualifiedName.simple path)]

/-- What code needs that reads or writes values of a kind. -/
def kindNeeds : ValueKind → List Need
  | .serialized => serializerNeeds t
  | .primitive _ => []

/-- What the method of an accessor needs. -/
def accessorNeeds (s : AccessorSpec) : List Need :=
  match s.role with
  | .getter => .name s.method :: .type s.type :: kindNeeds t s.kind
  | .putter =>
    .name s.method :: .type s.type :: .name (s.param.getD "value") :: kindNeeds t s.kind

theorem serializerName_fault :
    faultOf (serializerName t) = Need.firstFault? (serializerNeeds t) := by
  unfold serializerName serializerNeeds
  cases t.serializer with
  | none => rfl
  | some path => exact List.findSome?_singleton.symm

theorem readStmt_fault (s : AccessorSpec) (type : List Token) :
    faultOf (readStmt s t type) = Need.firstFault? (kindNeeds t s.kind) := by
  unfold readStmt kindNeeds
  cases s.kind with
  | serialized =>
    dsimp only
    rw [faultOf_bind_pure, serializerName_fault]
  | primitive kind =>
    cases kind with
    | stringSet =>
      dsimp only
      split <;> rfl
    | _ => rfl

theorem writeStmt_fault (s : AccessorSpec) (param : String) :
    faultOf (writeStmt s t param) = Need.firstFault? (kindNeeds t s.kind) := by
  unfold writeStmt kindNeeds
  cases s.kind with
  | serialized =>
    dsimp only
    rw [faultOf_bind_pure, serializerName_fault]
  | primitive kind =>
    cases kind with
    | stringSet =>
      dsimp only
      split <;> rfl
    | _ => rfl

/-- A method is refused for the first need of its accessor that is not met. -/
theorem accessor_fault (s : AccessorSpec) :
    faultOf (accessor s t) = Need.firstFault? (accessorNeeds t s) := by
  unfold accessor accessorNeeds
  cases s.role with
  | getter =>
    rw [Need.firstFault?_cons, Need.firstFault?_cons]
    refine faultOf_bind fun name => faultOf_bind fun type => ?_
    rw [faultOf_bind_pure, readStmt_fault]
  | putter =>
    rw [Need.firstFault?_cons, Need.firstFault?_cons, Need.firstFault?_cons]
    refine faultOf_bind fun name => faultOf_bind fun type => faultOf_bind fun param => ?_
    rw [faultOf_bind_pure, writeStmt_fault]

section

variable {t : Target} {n : String}

/-- The name that a kind of values needs is the last part of the serializer's path. -/
theorem name_mem_kindNeeds {kind : ValueKind} (h : .name n ∈ kindNeeds t kind) :
    ∃ path, t.serializer = some path ∧ n = QualifiedName.simple path := by
  unfold kindNeeds serializerNeeds at h
  split at h
  · split at h
    · cases List.mem_singleton.1 h
    · next path hpath =>
      cases List.mem_singleton.1 h
      exact ⟨path, hpath, rfl⟩
  · cases h

theorem name_mem_accessorNeeds {s : AccessorSpec} (h : .name n ∈ accessorNeeds t s) :
    n = s.method ∨ (s.role = .putter ∧ n = s.param.getD "value") ∨
      ∃ path, t.serializer = some path ∧ n = QualifiedName.simple path := by
  unfold accessorNeeds at h
  split at h
  · simp only [List.mem_cons, Need.name.injEq, reduceCtorEq, false_or] at h
    exact h.imp_right fun h => .inr (name_mem_kindNeeds h)
  · next hrole =>
    simp only [List.mem_cons, Need.name.injEq, reduceCtorEq, false_or] at h
    exact h.imp_right (.imp (⟨hrole, ·⟩) name_mem_kindNeeds)

end

/-! ## Units -/

/-- What the block of an interface needs. -/
def implNeeds (specs : List AccessorSpec) (interface : String) : List Need :=
  (specs.filter fun s => s.interface == interface).flatMap (accessorNeeds t)
    ++ [.path interface]

/-- What the call of a putter on its getter's value needs. -/
def storeNeeds (p : AccessorSpec × AccessorSpec) : List Need :=
  [.path p.1.interface, .path p.2.interface, .name p.1.method, .name p.2.method]

/-- What the unit of a root needs, in the order in which it is put together. -/
def unitNeeds (root : InterfaceDecl) (walk : Walk) : List Need :=
  .name (Naming.structName (QualifiedName.simple root.name))
    :: walk.interfaces.flatMap (implNeeds t walk.outcome.specs)
    ++ (storedPairs walk.outcome.keys).flatMap storeNeeds
    ++ (unitImports t (root.store.getD {}) walk.outcome.specs).map .path

theorem name_mem_implNeeds {t : Target} {n : String} {specs : List AccessorSpec}
    {interface : String} (h : .name n ∈ implNeeds t specs interface) :
    ∃ s ∈ specs, .name n ∈ accessorNeeds t s := by
  rcases List.mem_append.1 h with h | h
  · obtain ⟨s, hs, h⟩ := List.mem_flatMap.1 h
    exact ⟨s, List.mem_of_mem_filter hs, h⟩
  · cases List.mem_singleton.1 h

theorem name_mem_storeNeeds {n : String} {p : AccessorSpec × AccessorSpec}
    (h : .name n ∈ storeNeeds p) : n = p.1.method ∨ n = p.2.method := by
  simpa [storeNeeds] using h

/-- The names that a unit needs are those of its structure, of its accessors, and of the pairs whose
values are stored. -/
theorem name_mem_unitNeeds {t : Target} {n : String} {root : InterfaceDecl} {walk : Walk}
    (h : .name n ∈ unitNeeds t root walk) :
    n = Naming.structName (QualifiedName.simple root.name) ∨
    (∃ s ∈ walk.outcome.specs, .name n ∈ accessorNeeds t s) ∨
    ∃ p ∈ storedPairs walk.outcome.keys, n = p.1.method ∨ n = p.2.method := by
  simp only [unitNeeds, List.mem_append, List.mem_cons, List.mem_flatMap, List.mem_map,
    Need.name.injEq, reduceCtorEq, and_false, exists_false, or_false] at h
  rcases h with (hname | ⟨interface, -, hblock⟩) | ⟨p, hp, hstore⟩
  · exact .inl hname
  · exact .inr (.inl (name_mem_implNeeds hblock))
  · exact .inr (.inr ⟨p, hp, name_mem_storeNeeds hstore⟩)

theorem impl_fault (specs : List AccessorSpec) (interface : String) :
    faultOf (impl t specs interface) = Need.firstFault? (implNeeds t specs interface) := by
  have hpath : Need.firstFault? [.path interface] = faultOf (CodePath.read interface) :=
    List.findSome?_singleton
  have hmethods : (fun s => faultOf (accessor s t))
      = fun s => Need.firstFault? (accessorNeeds t s) :=
    funext (accessor_fault t)
  rw [implNeeds, Need.firstFault?_append, Need.firstFault?_flatMap, hpath, ← hmethods,
    ← faultOf_mapM]
  exact faultOf_bind fun methods => faultOf_bind_pure

theorem storeStmt_fault (p : AccessorSpec × AccessorSpec) :
    faultOf (storeStmt p.1 p.2) = Need.firstFault? (storeNeeds p) := by
  unfold storeNeeds
  rw [Need.firstFault?_cons, Need.firstFault?_cons, Need.firstFault?_cons, Need.firstFault?_cons,
    show Need.firstFault? [] = none from rfl, Option.or_none]
  refine faultOf_bind fun getterTrait => faultOf_bind fun putterTrait => faultOf_bind fun name => ?_
  exact faultOf_bind_pure

theorem actions_fault (k : KeySpace) :
    faultOf (actions t k) = Need.firstFault? ((storedPairs k).flatMap storeNeeds) := by
  have hpairs : (fun p : AccessorSpec × AccessorSpec => faultOf (storeStmt p.1 p.2))
      = fun p => Need.firstFault? (storeNeeds p) := funext storeStmt_fault
  rw [Need.firstFault?_flatMap, ← hpairs, ← faultOf_mapM]
  exact faultOf_bind_pure.trans faultOf_bind_pure

/-- A unit is refused for the first of its needs that is not met. -/
theorem unit_fault (root : InterfaceDecl) (walk : Walk) :
    faultOf (unit t root walk) = Need.firstFault? (unitNeeds t root walk) := by
  have himpls : (fun i => faultOf (impl t walk.outcome.specs i))
      = fun i => Need.firstFault? (implNeeds t walk.outcome.specs i) :=
    funext (impl_fault t walk.outcome.specs)
  have himports (paths : List String) :
      Need.firstFault? (paths.map .path) = faultOf (paths.mapM CodePath.read) := by
    rw [Need.firstFault?, List.findSome?_map, faultOf_mapM]
    rfl
  rw [unitNeeds, List.cons_append, List.cons_append, Need.firstFault?_cons,
    Need.firstFault?_append, Need.firstFault?_append, Need.firstFault?_flatMap, ← himpls,
    ← faultOf_mapM, ← actions_fault, himports, Option.or_assoc]
  refine faultOf_bind fun structName => faultOf_bind fun impls => faultOf_bind fun actions => ?_
  exact faultOf_bind_pure

end Emit

end TypedSettings
