import TypedSettings.Interface.Declaration

/-!
The shape of a method decides its role: a method that takes nothing and gives a value is a getter,
one that takes a value and gives nothing, or `&Self`, is a putter.
-/

namespace TypedSettings

inductive Role where
  | getter
  | putter
deriving DecidableEq, Repr

namespace Role

def opposite : Role → Role
  | getter => putter
  | putter => getter

@[simp] theorem opposite_opposite (r : Role) : r.opposite.opposite = r := by cases r <;> rfl

def text : Role → String
  | getter => "getter"
  | putter => "putter"

end Role

/-- Why a method is neither getter nor putter. -/
inductive ShapeFault where
  | notShared
  | givesNothing
  | givesReference (type : TypeRef)
  | givesSelf
  | takesReference (type : TypeRef)
  | givesValue (type : TypeRef)
  | tooMany (count : Nat)
deriving DecidableEq, Repr

def ShapeFault.message : ShapeFault → String
  | notShared => "accessors must take `&self`"
  | givesNothing => "a method without parameters must return a value"
  | givesReference type => "getters must return an owned value, found `" ++ type.text ++ "`"
  | givesSelf => "getters cannot return `Self`"
  | takesReference type => "putters must take an owned value, found `" ++ type.text ++ "`"
  | givesValue type => "putters must return `()` or `&Self`, found `" ++ type.text ++ "`"
  | tooMany count => "expected zero or one parameter, found " ++ toString count

namespace MethodDecl

/-- The role of a method, by its receiver, parameters and result alone. -/
def role (m : MethodDecl) : Except ShapeFault Role :=
  if m.receiver ≠ .shared then .error .notShared
  else match m.params with
    | [] =>
      if m.returns = .unit then .error .givesNothing
      else if m.returns.isReference then .error (.givesReference m.returns)
      else if m.returns.path? = some "Self" then .error .givesSelf
      else .ok .getter
    | [param] =>
      if m.returns = .unit ∨ m.returns = .selfReference then
        if param.type.isReference then .error (.takesReference param.type) else .ok .putter
      else .error (.givesValue m.returns)
    | params => .error (.tooMany params.length)

/-- The type of the value that a method reads or writes. -/
def valueType (m : MethodDecl) : Role → TypeRef
  | .getter => m.returns
  | .putter => match m.params with
    | param :: _ => param.type
    | [] => .unit

end MethodDecl

end TypedSettings
