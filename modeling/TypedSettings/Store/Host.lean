import TypedSettings.Accessor.ValueKind
import TypedSettings.Store.Basic

/-!
A host keeps one store for each name, with the mode it was first opened in, and knows the level of
the platform it runs on.
-/

namespace TypedSettings

structure OpenStore where
  name : String
  mode : StoreMode
  store : Store
deriving Repr

structure Host where
  stores : List OpenStore := []
  level : Nat := 34
deriving Repr

namespace Host

/-- The name of the store that is opened without a name. -/
def defaultName : String := "default"

def find? (h : Host) (name : String) : Option OpenStore := h.stores.find? fun o => o.name == name

def store? (h : Host) (name : String) : Option Store := (h.find? name).map OpenStore.store

/-- The mode that a store was first opened in. -/
def mode? (h : Host) (name : String) : Option StoreMode := (h.find? name).map OpenStore.mode

/-- Opens a store; one that is open stays as it is. -/
def openStore (h : Host) (name : String) (mode : StoreMode) : Host :=
  if (h.find? name).isSome then h else { h with stores := h.stores ++ [⟨name, mode, {}⟩] }

def openDefault (h : Host) : Host := h.openStore defaultName .ownProcess

/-- Puts a store in the place of the one with its name. -/
def setStore (h : Host) (name : String) (store : Store) : Host :=
  { h with stores := h.stores.map fun o => if o.name = name then { o with store } else o }

/-- The levels that generated code can ask for, by their names. -/
def levels : List (String × Nat) := [("GINGERBREAD", 9), ("HONEYCOMB", 11), ("CURRENT", 34)]

def namedLevel? (name : String) : Option Nat :=
  (levels.find? fun l => l.1 == name).map Prod.snd

/-- Whether the platform has what a level brings. -/
def reaches (h : Host) (level : Nat) : Bool := level ≤ h.level

end Host

end TypedSettings
