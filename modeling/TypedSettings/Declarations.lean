import TypedSettings.Interface.Reader
import TypedSettings.Problem
import TypedSettings.Scope

/-!
The interfaces that a set of sources declares, in the order they were found. A name is declared
once: the first declaration holds.
-/

namespace TypedSettings

open Source

structure Declarations where
  interfaces : List InterfaceDecl := []
deriving Repr

/-- One source text: the module it is, and the file it stands in. -/
structure SourceText where
  module : List String
  file : Option String
  text : String
deriving Repr

/-- What a source text is called in messages. -/
def SourceText.label (s : SourceText) : String :=
  s.file.getD ("crate::" ++ QualifiedName.ofSegments s.module)

namespace Declarations

def get? (d : Declarations) (name : String) : Option InterfaceDecl :=
  d.interfaces.find? fun i => i.name == name

def contains (d : Declarations) (name : String) : Bool := (d.get? name).isSome

/-- Adds a declaration, unless its name is declared. -/
def insert (d : Declarations) (i : InterfaceDecl) : Declarations :=
  if d.contains i.name then d else ⟨d.interfaces ++ [i]⟩

/-- The declarations that open a store. -/
def roots (d : Declarations) : List InterfaceDecl := d.interfaces.filter InterfaceDecl.isRoot

/-- The interfaces among the items of a module and of the modules inside it, in order. Items nest
no deeper than their tokens do, so the number of tokens bounds `fuel`. -/
def ofItemsFuel (file : Option String) :
    (fuel : Nat) → (module : List String) → List Tree → List InterfaceDecl
  | 0, _, _ => []
  | fuel + 1, module, items =>
    let scope := Scope.ofItems module items
    items.flatMap fun item =>
      match item.kind? with
      | some .itemTrait =>
        let name := QualifiedName.ofSegments ("crate" :: module ++ [(item.part 5).word])
        [InterfaceDecl.ofItem name file scope.resolve item]
      | some .itemMod =>
        ofItemsFuel file fuel (module ++ [(item.part 4).word]) ((item.part 5).parts.drop 1)
      | _ => []

/-- The interfaces that a source text declares, in order. -/
def ofText (s : SourceText) : Except Problem (List InterfaceDecl) :=
  match readFile s.text with
  | .error _ => .error (.unparsable s.label)
  | .ok trees =>
    .ok (ofItemsFuel s.file (Token.count (Tree.tokensAll trees) + 1) s.module (trees.drop 1))

/-- Adds the interfaces of a source text. A text that cannot be read adds none. -/
def addSource (d : Declarations) (s : SourceText) : Except Problem Declarations :=
  (ofText s).map fun found => found.foldl insert d

/-- The declarations of sources, up to the first that cannot be read. -/
def ofSources (sources : List SourceText) : Except Problem Declarations :=
  sources.foldlM addSource {}

end Declarations

end TypedSettings
