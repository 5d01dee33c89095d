import TypedSettings.QualifiedName
import TypedSettings.Source.Tree

/-!
Names in a module. `use` declarations bind names to paths; a path that is written in the module
stands for one or several qualified names, the likeliest first.
-/

namespace TypedSettings

open Source

/-- A path as its segments. -/
abbrev Segments := List String

/-- What one leaf of a `use` declaration does. -/
inductive UseLeaf where
  | binds (name : String) (path : Segments)
  | glob (path : Segments)
deriving DecidableEq, Repr

namespace UseLeaf

/-- The leaves below a tree whose path so far is `before`. `self` stands for that path. A tree
nests no deeper than its tokens do, so their number bounds `fuel`. -/
def ofTreeFuel : (fuel : Nat) → (before : Segments) → Tree → List UseLeaf
  | 0, _, _ => []
  | fuel + 1, before, t =>
    match t with
    | .node .usePath [name, _, rest] => ofTreeFuel fuel (before ++ [name.word]) rest
    | .node .useName [name] =>
      if name.word = "self" then
        match before.getLast? with
        | some last => [binds last before]
        | none => []
      else [binds name.word (before ++ [name.word])]
    | .node .useRename [name, _, renamed] =>
      [binds renamed.word (if name.word = "self" then before else before ++ [name.word])]
    | .node .useGlob _ => [glob before]
    | .node .useGroup [.group _ body _ _] =>
      (Tree.members body).flatMap (ofTreeFuel fuel before)
    | _ => []

def ofTree (t : Tree) : List UseLeaf := ofTreeFuel (Token.count t.tokens + 1) [] t

end UseLeaf

/-- The names that one module sees. -/
structure Scope where
  module : Segments
  leaves : List UseLeaf
deriving Repr

namespace Scope

/-- The scope of a module with the given items. -/
def ofItems (module : Segments) (items : List Tree) : Scope :=
  ⟨module, items.flatMap fun item =>
    match item with
    | .node .itemUse [_, _, _, _, tree, _] => UseLeaf.ofTree tree
    | _ => []⟩

/-- The path that a name is bound to; the last binding holds. -/
def alias? (s : Scope) (name : String) : Option Segments :=
  s.leaves.reverse.findSome? fun leaf =>
    match leaf with
    | .binds n path => if n = name then some path else none
    | .glob _ => none

/-- The paths whose members are all in scope. -/
def globs (s : Scope) : List Segments :=
  s.leaves.filterMap fun leaf =>
    match leaf with
    | .glob path => some path
    | .binds .. => none

/-- Whether a path starts at a fixed module. -/
def isAnchored : Segments → Bool
  | first :: _ => first == "crate" || first == "self" || first == "super"
  | [] => false

def inModule (s : Scope) (path : Segments) : Segments := "crate" :: s.module ++ path

/-- Follows `super` from a module outwards. -/
def climb (module : Segments) : Segments → Segments
  | "super" :: rest => climb module.dropLast rest
  | rest => "crate" :: module ++ rest

/-- The absolute form of a path that starts at a fixed module. -/
def absolute (s : Scope) : Segments → Segments
  | "self" :: rest => s.inModule rest
  | "super" :: rest => climb s.module ("super" :: rest)
  | path => path

/-- What a path may stand for: one absolute path if it starts at a fixed module; otherwise the path
in this module, then the path from outside. -/
def anchored (s : Scope) (path : Segments) : List Segments :=
  if isAnchored path then [s.absolute path] else [s.inModule path, path]

/-- The candidates of a path, before repeated ones are left out. -/
def candidates (s : Scope) (path : Segments) : List Segments :=
  match path with
  | [] => []
  | first :: rest =>
    if isAnchored path then [s.absolute path]
    else match s.alias? first with
      | some target => s.anchored (target ++ rest)
      | none =>
        if rest.isEmpty then
          s.inModule path :: s.globs.flatMap fun glob => s.anchored (glob ++ path)
        else s.anchored path

/-- Keeps the first of equal texts. -/
def firsts : List String → List String
  | [] => []
  | s :: rest => s :: (firsts rest).filter (· ≠ s)

/-- The qualified names that a written path may stand for, the likeliest first. -/
def resolve (s : Scope) (written : String) : List String :=
  firsts ((s.candidates (QualifiedName.segments written)).map QualifiedName.ofSegments)

end Scope

end TypedSettings
