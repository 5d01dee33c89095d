import TypedSettings.Unit.Accessor

/-!
The methods that every unit has beside its accessors: they hand calls on to the store, remove keys,
and write down the defaults.
-/

namespace TypedSettings

open Source Source.Token

namespace Emit

/-- The type of a listener as generated code names it. -/
def listenerType : List Token := code ["Arc", "<", "dyn", "OnChangeListener", ">"]

/-- A method that takes the object and named arguments. -/
def actionSignature (name : String) (args : List (List Token)) (result : List Token := []) :
    List Token :=
  code ["fn", name] ++ arguments (code ["&", "self"] :: args) ++ result

/-- The actions that are the same for every key space. -/
def fixedActions (t : Target) : List GeneratedMethod :=
  [{ name := "get"
     signature := actionSignature "get" [] (code ["->", "&", "dyn", "SharedPreferences"])
     body := [.delegate "as_ref" []] },
   { name := "contains"
     signature := actionSignature "contains" [code ["key", ":", "&", "str"]] (code ["->", "bool"])
     body := [.delegate "contains" ["key"]] },
   { name := "remove"
     signature := actionSignature "remove" [code ["key", ":", "&", "str"]]
     body := [.openEditor, .removeGiven, publish t] },
   { name := "register_on_change_listener"
     signature := actionSignature "register_on_change_listener"
       [code ["listener", ":"] ++ listenerType]
     body := [.delegateStmt "register_on_change_listener" ["listener"]] },
   { name := "unregister_on_change_listener"
     signature := actionSignature "unregister_on_change_listener"
       [code ["listener", ":", "&"] ++ listenerType]
     body := [.delegateStmt "unregister_on_change_listener" ["listener"]] },
   { name := "clear"
     signature := actionSignature "clear" []
     body := [.openEditor, .clear, publish t] }]

/-- Removes every key, in one batch. -/
def clearDefined (t : Target) (keys : List String) : GeneratedMethod :=
  { name := "clear_defined"
    signature := actionSignature "clear_defined" []
    body := if keys.isEmpty then [] else [.openEditor, .remove keys, publish t] }

/-- Calls a putter on its getter's value. -/
def storeStmt (getter putter : AccessorSpec) : Except EmitFault Stmt := do
  let getterTrait ← CodePath.read getter.interface
  let putterTrait ← CodePath.read putter.interface
  let getterName ← identifier getter.method
  let putterName ← identifier putter.method
  return .store putterTrait putterName getterTrait getterName

/-- The pairs of accessors that read and write a key as one type. -/
def storedPairs (k : KeySpace) : List (AccessorSpec × AccessorSpec) :=
  k.pairs.filter fun p => p.1.type == p.2.type

/-- Writes down what every getter reads, by its putter. -/
def initDefaults (k : KeySpace) : Except EmitFault GeneratedMethod := do
  return {
    name := "init_defaults"
    signature := actionSignature "init_defaults" []
    body := ← (storedPairs k).mapM fun p => storeStmt p.1 p.2 }

/-- All actions of a key space. -/
def actions (t : Target) (k : KeySpace) : Except EmitFault (List GeneratedMethod) := do
  return fixedActions t ++ [clearDefined t k.definedKeys, ← initDefaults k]

end Emit

end TypedSettings
