import TypedSettings.Problem
import TypedSettings.Text.Bits
import TypedSettings.Text.CharClass

/-!
Keys and defaults of accessors. The key is the method's name without the word that tells its role,
unless an annotation names the key.
-/

namespace TypedSettings.Key

open Source

/-- The words in front of a name that tell its role. -/
def marks : Role → List String
  | .getter => ["get_", "is_"]
  | .putter => ["set_", "put_"]

/-- What follows a beginning. -/
def after? : (start text : List Char) → Option (List Char)
  | [], text => some text
  | _ :: _, [] => none
  | s :: start, c :: text => if s = c then after? start text else none

/-- The name without the first mark that it starts with. -/
def derive (name : String) (role : Role) : String :=
  match (marks role).findSome? fun mark => after? mark.toList name.toList with
  | some rest => String.ofList rest
  | none => name

/-- The key of a method in a role; it may be empty. -/
def ofMethod (m : MethodDecl) (role : Role) : String :=
  match m.metadata.key with
  | some key => Text.trim key
  | none => derive m.name role

/-! ## Defaults -/

/-- Whether a literal is a value of a kind that a store holds. -/
def literalFits (literal : Literal) : StoreKind → Bool
  | .boolean => match literal.kind with
    | .bool _ => true
    | _ => false
  | .int => match literal.kind with
    | .int n => (literal.suffix == "" || literal.suffix == "i32") && Text.Bits.fitsSigned 32 n
    | _ => false
  | .long => match literal.kind with
    | .int n => (literal.suffix == "" || literal.suffix == "i64") && Text.Bits.fitsSigned 64 n
    | _ => false
  | .float => match literal.kind with
    | .float => literal.suffix == "" || literal.suffix == "f32"
    | .int _ => literal.suffix == ""
    | _ => false
  | .string => match literal.kind with
    | .text _ => true
    | _ => false
  | .stringSet => false

/-- Accepts a literal as the default of a kind of values. -/
def checkLiteral (literal : Literal) (kind : ValueKind) : Except DefaultFault Unit :=
  match kind with
  | .serialized => .error .serializedLiteral
  | .primitive .stringSet => .error .setLiteral
  | .primitive stored =>
    if literalFits literal stored then .ok ()
    else .error (.misfit (Token.text literal.tokens) kind)

/-- The key of an accessor, and for a getter its default. -/
structure Resolution where
  key : String
  default : Option DefaultValue
  isExplicit : Bool
deriving Repr

/-- Finds the key and the default of a method. -/
def resolve (interface : String) (m : MethodDecl) (role : Role) (kind : ValueKind) :
    Except Problem Resolution :=
  let site := Attribution.ofMethod interface m.name m.location
  let key := ofMethod m role
  if key = "" then .error (.invalidKey m.name site)
  else match role with
    | .putter => .ok ⟨key, none, false⟩
    | .getter =>
      match m.metadata.default with
      | none => .ok ⟨key, some kind.zeroDefault, false⟩
      | some (.expr tokens) => .ok ⟨key, some (.expr tokens), true⟩
      | some (.literal literal) =>
        match checkLiteral literal kind with
        | .ok () => .ok ⟨key, some (.literal literal), true⟩
        | .error fault => .error (.invalidDefault m.name fault site)

end TypedSettings.Key
