import TypedSettings.Accessor.KeySpace

/-!
What generated code is made for, and the names that it may use. A gate is a platform level that
generated code asks for at run time, when it may run below that level.
-/

namespace TypedSettings

open Source

/-- What a platform may lack. -/
inductive Gate where
  | apply
  | stringSet
deriving DecidableEq, Repr

namespace Gate

/-- The first platform level that has it. -/
def level : Gate → Nat
  | apply => applyLevel
  | stringSet => stringSetLevel

/-- The constant that generated code names the level by. -/
def constant : Gate → String
  | apply => "GINGERBREAD"
  | stringSet => "HONEYCOMB"

end Gate

/-- The lowest platform level that generated code runs on, and the module that makes text of
values. Without a level every gate is open. -/
structure Target where
  minLevel : Option Nat := none
  serializer : Option String := none
deriving DecidableEq, Repr

/-- Whether generated code asks for a gate at run time. -/
def Target.guards (t : Target) (g : Gate) : Bool := t.minLevel.any (· < g.level)

/-! ## Names in generated code -/

namespace Emit

/-- Whether the characters make a word. -/
def isWordText : List Char → Bool
  | [] => false
  | c :: rest => Text.isIdentStart c && rest.all Text.isIdentContinue

/-- Whether a text is an identifier. A word after `r#` is taken as it is, unless it is a path
word. -/
def isIdentifier (s : String) : Bool :=
  match s.toList with
  | 'r' :: '#' :: rest =>
    isWordText rest
      && !(["_", "super", "self", "Self", "crate"].contains (String.ofList rest))
  | cs => isWordText cs

/-- A name that generated code uses as an identifier. -/
def identifier (s : String) : Except EmitFault String :=
  if isIdentifier s then .ok s else .error (.notIdentifier s)

/-- The tokens of a type. -/
def typeTokens (t : TypeRef) : Except EmitFault (List Token) :=
  match readType t.text with
  | .ok tree => .ok tree.tokens
  | .error _ => .error (.typeText t.text)

end Emit

/-- A path that generated code names: its text and its tokens. -/
structure CodePath where
  text : String
  tokens : List Token
deriving Repr

def CodePath.read (text : String) : Except EmitFault CodePath :=
  match readPath text with
  | .ok tree => .ok ⟨text, tree.tokens⟩
  | .error _ => .error (.pathText text)

end TypedSettings
