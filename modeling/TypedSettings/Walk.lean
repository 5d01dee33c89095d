import TypedSettings.Accessor.KeySpace
import TypedSettings.Declarations
import TypedSettings.Registry

/-!
The walk over what a root inherits. It visits the root, then each ancestor in the order it is
written, before the ancestors of the next; an interface is visited once. Methods become accessors
as they are met, and what goes wrong is noted and stops nothing.
-/

namespace TypedSettings

/-- What a walk looks names up in. -/
structure World where
  declarations : Declarations := {}
  registry : Registry := {}
  serializer : Option String := none

/-- An interface that a name stands for. -/
inductive Reached where
  | declared (d : InterfaceDecl)
  | external (e : ExternalInterface)
deriving Repr

namespace Reached

def name : Reached → String
  | declared d => d.name
  | external e => e.name

def methods : Reached → List MethodDecl
  | declared d => d.methods
  | external e => e.methods

def ancestors : Reached → List AncestorRef
  | declared d => d.ancestors
  | external e => e.ancestors.map .exact

def issues : Reached → List AttributeIssue
  | declared d => d.issues
  | external _ => []

def isExternal : Reached → Bool
  | declared _ => false
  | external _ => true

end Reached

namespace World

/-! ## Names -/

def knows (w : World) (name : String) : Bool :=
  w.declarations.contains name || w.registry.contains name

/-- Every name that stands for an interface. -/
def names (w : World) : List String :=
  w.declarations.interfaces.map InterfaceDecl.name
    ++ w.registry.interfaces.map ExternalInterface.name

/-- The interface that a reference stands for: the first candidate that is declared, else the first
that is registered. -/
def resolve? (w : World) (a : AncestorRef) : Option Reached :=
  match a.candidates.findSome? w.declarations.get? with
  | some d => some (.declared d)
  | none => (a.candidates.findSome? w.registry.get?).map .external

/-- The name of the actions that every unit has. -/
def contractName : String := "PreferenceActions"

/-- The paths under which the actions are exported. -/
def contractPaths : List String :=
  ["prefs_api::PreferenceActions", "prefs_api::actions::PreferenceActions"]

/-- What the candidates of a reference say of it: the actions, another interface, or nothing. -/
def contractAmong? (w : World) : List String → Option Bool
  | [] => none
  | name :: rest =>
    if contractPaths.contains name then some true
    else if w.knows name then some false
    else contractAmong? w rest

/-- Whether a reference stands for the actions. One that stands for nothing does by its name. -/
def isContract (w : World) (a : AncestorRef) : Bool :=
  (w.contractAmong? a.candidates).getD (a.simpleName == contractName)

theorem resolve?_name_mem {w : World} {a : AncestorRef} {r : Reached}
    (h : w.resolve? a = some r) : r.name ∈ w.names := by
  unfold resolve? at h
  split at h
  · next d hd =>
    obtain ⟨name, -, hname⟩ := List.exists_of_findSome?_eq_some hd
    cases h
    exact List.mem_append_left _ (List.mem_map_of_mem (List.mem_of_find?_eq_some hname))
  · obtain ⟨e, he, rfl⟩ := Option.map_eq_some_iff.1 h
    obtain ⟨name, -, hname⟩ := List.exists_of_findSome?_eq_some he
    exact List.mem_append_right _ (List.mem_map_of_mem (List.mem_of_find?_eq_some hname))

end World

/-! ## Outcomes -/

/-- What methods have become: accessors, their keys, and problems. -/
structure Outcome where
  keys : KeySpace := {}
  specs : List AccessorSpec := []
  problems : List Problem := []

namespace Outcome

def fail (o : Outcome) (p : Problem) : Outcome := { o with problems := o.problems ++ [p] }

/-- Notes an annotation that could not be read. -/
def addIssue (interface : String) (o : Outcome) (issue : AttributeIssue) : Outcome :=
  o.fail (.invalidAttribute interface issue.fault ⟨interface, issue.method, issue.location⟩)

/-- Makes a method an accessor, or notes why it is none. -/
def addMethod (serializer : Option String) (interface : String) (o : Outcome) (m : MethodDecl) :
    Outcome :=
  match o.keys.classify serializer interface m with
  | .ok (spec, keys) => { o with keys, specs := o.specs ++ [spec] }
  | .error p => o.fail p

/-- Takes the issues of an interface, then its methods. -/
def addInterface (serializer : Option String) (o : Outcome) (r : Reached) : Outcome :=
  r.methods.foldl (addMethod serializer r.name) (r.issues.foldl (addIssue r.name) o)

end Outcome

/-! ## The walk -/

/-- The names that were visited, in order, and what came of them. -/
structure Walk where
  interfaces : List String := []
  outcome : Outcome := {}

namespace Walk

/-- Visits an interface. -/
def visit (w : World) (s : Walk) (r : Reached) : Walk :=
  ⟨s.interfaces ++ [r.name], s.outcome.addInterface w.serializer r⟩

def fail (s : Walk) (p : Problem) : Walk := { s with outcome := s.outcome.fail p }

/-- The number of names still to visit. -/
def unvisited (w : World) (s : Walk) : Nat :=
  (w.names.filter fun n => !s.interfaces.contains n).length

theorem length_filter_append_lt {names seen : List String} {n : String} (hn : n ∈ names)
    (hs : n ∉ seen) :
    (names.filter fun m => !(seen ++ [n]).contains m).length
      < (names.filter fun m => !seen.contains m).length := by
  have hsplit : (names.filter fun m => !(seen ++ [n]).contains m)
      = (names.filter fun m => !seen.contains m).filter (· ≠ n) := by
    rw [List.filter_filter]
    refine List.filter_congr fun m _ => ?_
    simp [Bool.and_comm]
  rw [hsplit, List.length_filter_lt_length_iff_exists]
  exact ⟨n, List.mem_filter.2 ⟨hn, by simpa using hs⟩, by simp⟩

theorem unvisited_visit_lt {w : World} {s : Walk} {a : AncestorRef} {r : Reached}
    (h : w.resolve? a = some r) (hs : r.name ∉ s.interfaces) :
    (s.visit w r).unvisited w < s.unvisited w :=
  length_filter_append_lt (World.resolve?_name_mem h) hs

/-- Follows references in order: what a reference leads to is visited, and its own references are
followed first. `site` is the root, to which a reference that leads nowhere is charged. -/
def follow (w : World) (site : Attribution) : (todo : List AncestorRef) → Walk → Walk
  | [], s => s
  | a :: rest, s =>
    if w.isContract a then follow w site rest s
    else
      match _h : w.resolve? a with
      | none => follow w site rest (s.fail (.unresolvableAncestor a.written site.interface site))
      | some r =>
        if _hs : r.name ∈ s.interfaces then follow w site rest s
        else follow w site (r.ancestors ++ rest) (s.visit w r)
termination_by todo s => (s.unvisited w, todo.length)
decreasing_by
  · exact Prod.Lex.right _ (by simp)
  · exact Prod.Lex.right _ (by simp)
  · exact Prod.Lex.right _ (by simp)
  · exact Prod.Lex.left _ _ (unvisited_visit_lt _h _hs)

/-- Walks from a root. -/
def ofRoot (w : World) (root : InterfaceDecl) : Walk :=
  follow w (.ofInterface root.name root.location) root.ancestors
    (({} : Walk).visit w (.declared root))

end Walk

end TypedSettings
