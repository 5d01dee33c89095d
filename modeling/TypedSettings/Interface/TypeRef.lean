import TypedSettings.QualifiedName
import TypedSettings.Source.Grammar

/-!
Types of values, as far as storage depends on them: unit, a path with type arguments, a reference,
or any other type, which keeps its text. Parentheses around a type mean nothing, and a lifetime on
a reference is left out.
-/

namespace TypedSettings

open Source

inductive TypeRef where
  | unit
  | path (segments : List String) (args : List TypeRef)
  | reference (mutable : Bool) (inner : TypeRef)
  | other (text : String)
deriving Repr, Inhabited

namespace TypeRef

mutual

def decEq : (a b : TypeRef) → Decidable (a = b)
  | unit, unit => isTrue rfl
  | path ss as, path ts bs =>
    if h : ss = ts then
      match decEqAll as bs with
      | isTrue h' => isTrue (by rw [h, h'])
      | isFalse h' => isFalse (by intro e; injection e; contradiction)
    else isFalse (by intro e; injection e; contradiction)
  | reference m a, reference n b =>
    if h : m = n then
      match decEq a b with
      | isTrue h' => isTrue (by rw [h, h'])
      | isFalse h' => isFalse (by intro e; injection e; contradiction)
    else isFalse (by intro e; injection e; contradiction)
  | other s, other t =>
    if h : s = t then isTrue (by rw [h]) else isFalse (by intro e; injection e; contradiction)
  | unit, path .. => isFalse (by intro e; cases e)
  | unit, reference .. => isFalse (by intro e; cases e)
  | unit, other _ => isFalse (by intro e; cases e)
  | path .., unit => isFalse (by intro e; cases e)
  | path .., reference .. => isFalse (by intro e; cases e)
  | path .., other _ => isFalse (by intro e; cases e)
  | reference .., unit => isFalse (by intro e; cases e)
  | reference .., path .. => isFalse (by intro e; cases e)
  | reference .., other _ => isFalse (by intro e; cases e)
  | other _, unit => isFalse (by intro e; cases e)
  | other _, path .. => isFalse (by intro e; cases e)
  | other _, reference .. => isFalse (by intro e; cases e)

def decEqAll : (as bs : List TypeRef) → Decidable (as = bs)
  | [], [] => isTrue rfl
  | [], _ :: _ => isFalse (by intro e; cases e)
  | _ :: _, [] => isFalse (by intro e; cases e)
  | a :: as, b :: bs =>
    match decEq a b, decEqAll as bs with
    | isTrue h, isTrue h' => isTrue (by rw [h, h'])
    | isFalse h, _ => isFalse (by intro e; injection e; contradiction)
    | _, isFalse h => isFalse (by intro e; injection e; contradiction)

end

instance : DecidableEq TypeRef := decEq

/-- A type that is one name. -/
def named (name : String) : TypeRef := path [name] []

def isReference : TypeRef → Bool
  | reference .. => true
  | _ => false

/-- `&Self`, which a chainable write returns. -/
def selfReference : TypeRef := reference false (named "Self")

/-- The path as it is written, without arguments. -/
def path? : TypeRef → Option String
  | path segments _ => some (QualifiedName.ofSegments segments)
  | _ => none

def args : TypeRef → List TypeRef
  | path _ args => args
  | _ => []

mutual

/-- How a type is written. -/
def text : TypeRef → String
  | unit => "()"
  | path segments [] => QualifiedName.ofSegments segments
  | path segments args =>
    QualifiedName.ofSegments segments ++ "<" ++ ", ".intercalate (textAll args) ++ ">"
  | reference true inner => "&mut " ++ inner.text
  | reference false inner => "&" ++ inner.text
  | other text => text

def textAll : List TypeRef → List String
  | [] => []
  | t :: ts => t.text :: textAll ts

end

theorem textAll_eq_map (ts : List TypeRef) : textAll ts = ts.map text := by
  induction ts with
  | nil => rfl
  | cons t ts ih => simp [textAll, ih]

/-! ## Reading -/

/-- Whether a generic argument is a type. -/
def isTypeArgument (t : Tree) : Bool :=
  !(t.isKind .lifetime || t.isKind .constArg || t.isKind .assocType || t.isKind .assocConst
    || t.isKind .constraint)

/-- The arguments between angle brackets. -/
def angleArguments (args : Tree) : List Tree := Tree.members ((args.parts.drop 2).dropLast)

/-- The arguments of a path's last segment, if no other segment has any and all are types. -/
def pathArguments? (segments : List Tree) : Option (List Tree) :=
  match segments.getLast? with
  | none => none
  | some last =>
    let args := last.part 1
    if !segments.dropLast.all fun s => (s.part 1).isAbsent then none
    else if args.isAbsent then some []
    else if args.isKind .angleArgs && (angleArguments args).all isTypeArgument then
      some (angleArguments args)
    else none

/-- The type that a tree is read as. A tree nests no deeper than its tokens do, so their number
bounds `fuel`. -/
def ofTreeFuel : (fuel : Nat) → Tree → TypeRef
  | 0, t => other t.text
  | fuel + 1, t =>
    match t with
    | .node .typeTuple [.group _ [] _ _] => unit
    | .node .typeParen [.group _ [inner] _ _] => ofTreeFuel fuel inner
    | .node .typeRef [_, _, mut', inner] => reference (!mut'.isAbsent) (ofTreeFuel fuel inner)
    | .node .typePath [.node .path parts] =>
      let segments := Tree.members (parts.drop 1)
      match pathArguments? segments with
      | some args => path (segments.map fun s => (s.part 0).word) (args.map (ofTreeFuel fuel))
      | none => other t.text
    | t => other t.text

def ofTree (t : Tree) : TypeRef := ofTreeFuel (Token.count t.tokens + 1) t

/-- Reads the text of a type. -/
def read (text : String) : Except SyntaxFault TypeRef := (readType text).map ofTree

end TypeRef

end TypedSettings
