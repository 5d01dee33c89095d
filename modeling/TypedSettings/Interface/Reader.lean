import TypedSettings.Interface.Arguments

/-!
From syntax trees to interfaces. An interface with the annotation `preferences` is a root; what the
annotation `pref` says of a method goes into its metadata. An annotation that cannot be read
becomes an issue: a root keeps the default store, and a method is left out.
-/

namespace TypedSettings

open Source

namespace InterfaceDecl

/-! ## Attributes -/

/-- The path that an attribute starts with. -/
def attributePath (attr : Tree) : Tree := ((attr.part 2).part 0).part 0

/-- The names of a path. -/
def pathNames (path : Tree) : List String :=
  (Tree.members (path.parts.drop 1)).map fun s => (s.part 0).word

/-- Whether an attribute is the plain word `name`. -/
def isPlain (name : String) (attr : Tree) : Bool :=
  ((attributePath attr).part 0).isAbsent && pathNames (attributePath attr) == [name]

/-- The annotation of a root: the first attribute whose path ends in `preferences`. -/
def storeAttribute? (attrs : List Tree) : Option Tree :=
  attrs.find? fun a => (pathNames (attributePath a)).getLast? == some "preferences"

/-- The store that an annotation names. An annotation without arguments names the default one. -/
def readStore (attr : Tree) : Except (ArgumentFault × Position) StoreConfig :=
  if ((attr.part 2).part 0).isKind .metaPath then .ok {}
  else (ArgReader.ofAttribute StoreArg.read attr).map fun args => args.foldl StoreArg.addTo {}

/-- What the annotations of a method say. -/
def readMetadata (attrs : List Tree) : Except (ArgumentFault × Position) MethodMeta := do
  let args ← (attrs.filter (isPlain "pref")).mapM
    (ArgReader.ofAttribute (MethodArg.read false))
  return args.flatten.foldl MethodArg.addTo {}

/-! ## Methods -/

/-- How the parameters take the object. -/
def receiver (params : List Tree) : Receiver :=
  match params with
  | .node .receiver [_, amp, _, mut', _, _, type] :: _ =>
    if !amp.isAbsent then (if mut'.isAbsent then .shared else .exclusive)
    else if type.isKind .typeRef then
      (if (type.part 2).isAbsent then .shared else .exclusive)
    else .owned
  | _ => .none

/-- A parameter; one without a name gets its place as name. -/
def param (p : Tree × Nat) : Param :=
  let pat := p.1.part 1
  ⟨if pat.isKind .patIdent then (pat.part 2).word else "arg" ++ toString p.2,
   TypeRef.ofTree (p.1.part 3)⟩

/-- The method that a signature declares. -/
def method (sig : Tree) (file : Option String) (metadata : MethodMeta) : MethodDecl :=
  let params := Tree.members (sig.part 4).parts
  { name := (sig.part 2).word
    receiver := receiver params
    params := ((params.filter (Tree.isKind .param)).zipIdx).map param
    returns := if (sig.part 5).isAbsent then .unit else TypeRef.ofTree ((sig.part 5).part 1)
    metadata
    location := (sig.part 2).pos?.map fun pos => ⟨file, pos⟩ }

/-- What a member of an interface adds to it. A function with a body adds nothing. -/
def addMember (file : Option String) (d : InterfaceDecl) (member : Tree) : InterfaceDecl :=
  match member with
  | .node .traitFn [attrs, sig, body] =>
    if body.isKind .block then d
    else match readMetadata attrs.parts with
      | .ok metadata => { d with methods := d.methods ++ [method sig file metadata] }
      | .error (fault, pos) =>
        { d with issues := d.issues ++
            [⟨some (sig.part 2).word, fault.ofAttribute, some ⟨file, pos⟩⟩] }
  | _ => d

/-! ## Ancestors -/

/-- Interfaces that have no methods to implement. -/
def markers : List String := ["Send", "Sync", "Unpin", "Sized"]

/-- The path of a bound, if the bound is plain. -/
def boundPath? (bound : Tree) : Option String :=
  let plain := match bound with
    | .node .parenBound [.group _ [inner] _ _] => inner
    | t => t
  match plain with
  | .node .bound [maybe, _, path] =>
    if maybe.isAbsent then some (QualifiedName.ofSegments (pathNames path)) else none
  | _ => none

/-- The paths of the inherited interfaces as written, less the markers. -/
def ancestorPaths (bounds : Tree) : List String :=
  ((Tree.members bounds.parts).filterMap boundPath?).filter fun p =>
    !markers.contains (QualifiedName.simple p)

/-! ## Interfaces -/

/-- The attributes of an interface: those in front of it, then those inside its braces. -/
def attributes (item : Tree) : List Tree :=
  (item.part 0).parts ++ ((item.part 10).part 0).parts

/-- The interface that an item declares under a name. `resolve` finds what an inherited path may
stand for. -/
def ofItem (name : String) (file : Option String) (resolve : String → List String)
    (item : Tree) : InterfaceDecl :=
  let start : InterfaceDecl :=
    { name, location := (item.part 5).pos?.map fun pos => ⟨file, pos⟩
      ancestors := (ancestorPaths (item.part 8)).map fun p => ⟨p, resolve p⟩ }
  let annotated := match storeAttribute? (attributes item) with
    | none => start
    | some attr =>
      match readStore attr with
      | .ok store => { start with store := some store }
      | .error (fault, pos) =>
        { start with
            store := some {}
            issues := [⟨none, fault.ofAttribute, some ⟨file, pos⟩⟩] }
  ((item.part 10).parts.drop 1).foldl (addMember file) annotated

end InterfaceDecl

end TypedSettings
