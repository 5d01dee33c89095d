import TypedSettings.Store.Value

/-!
Stores of settings. An editor collects changes; publishing it clears the store first, if it was
asked to at any point, and then makes its changes in order. Listeners hear of each key that a
change touched.
-/

namespace TypedSettings

/-- The contents of a store, in the order of keys. -/
abbrev Entries := List (String × StoredValue)

namespace Entries

def get? (e : Entries) (key : String) : Option StoredValue := List.lookup key e

def contains (e : Entries) (key : String) : Bool := (e.get? key).isSome

/-- Puts a value under a key, at the key's place. -/
def insert (key : String) (value : StoredValue) : Entries → Entries
  | [] => [(key, value)]
  | (k, v) :: rest =>
    if key = k then (key, value) :: rest
    else if key < k then (key, value) :: (k, v) :: rest
    else (k, v) :: insert key value rest

def erase (e : Entries) (key : String) : Entries := e.filter fun p => p.1 != key

def keys (e : Entries) : List String := e.map Prod.fst

end Entries

/-! ## Editors -/

inductive Change where
  | put (key : String) (value : StoredValue)
  | remove (key : String)
deriving DecidableEq, Repr

/-- Changes that are not published yet. -/
structure Editor where
  clears : Bool := false
  changes : List Change := []
deriving DecidableEq, Repr

namespace Editor

def put (e : Editor) (key : String) (value : StoredValue) : Editor :=
  { e with changes := e.changes ++ [.put key value] }

def remove (e : Editor) (key : String) : Editor :=
  { e with changes := e.changes ++ [.remove key] }

def clear (e : Editor) : Editor := { e with clears := true }

end Editor

/-! ## Stores -/

/-- A store: its contents, and its listeners in the order they were registered. -/
structure Store where
  entries : Entries := []
  listeners : List String := []
deriving Repr

/-- A listener hears of a key. -/
structure Event where
  listener : String
  key : String
deriving DecidableEq, Repr

namespace Store

/-- Makes one change, and gives the keys that it touched. A value that is there already is not
written again. -/
def change (e : Entries) : Change → Entries × List String
  | .put key value =>
    match e.get? key with
    | some old => if old.same value then (e, []) else (e.insert key value, [key])
    | none => (e.insert key value, [key])
  | .remove key => if e.contains key then (e.erase key, [key]) else (e, [])

/-- Makes changes in order, and gives the keys that they touched. -/
def changeAll (e : Entries) : List Change → Entries × List String
  | [] => (e, [])
  | c :: rest =>
    let (e', touched) := change e c
    let (e'', later) := changeAll e' rest
    (e'', touched ++ later)

/-- The contents after an editor is published, and the keys that it touched. -/
def replay (e : Entries) (editor : Editor) : Entries × List String :=
  if editor.clears then
    let (e', touched) := changeAll [] editor.changes
    (e', e.keys ++ touched)
  else changeAll e editor.changes

/-- Every listener hears of every key, one key after the other. -/
def announce (listeners keys : List String) : List Event :=
  keys.flatMap fun key => listeners.map fun listener => ⟨listener, key⟩

/-- Publishes an editor, and gives what listeners hear. -/
def publish (s : Store) (editor : Editor) : Store × List Event :=
  let (entries, touched) := replay s.entries editor
  ({ s with entries }, announce s.listeners (Text.Sorted.ofList touched))

def register (s : Store) (listener : String) : Store :=
  if s.listeners.contains listener then s else { s with listeners := s.listeners ++ [listener] }

def unregister (s : Store) (listener : String) : Store :=
  { s with listeners := s.listeners.filter (· ≠ listener) }

/-! ## Reads -/

def get? (s : Store) (key : String) : Option StoredValue := s.entries.get? key

/-- What `pick` takes from the value under a key, or the default where there is no value or it is
not of the kind that `pick` takes. -/
def typed {α : Type} (pick : StoredValue → Option α) (s : Store) (key : String) (default : α) : α :=
  ((s.get? key).bind pick).getD default

def getBool (s : Store) (key : String) (default : Bool) : Bool :=
  s.typed StoredValue.bool? key default

def getInt (s : Store) (key : String) (default : Int32) : Int32 :=
  s.typed StoredValue.int? key default

def getLong (s : Store) (key : String) (default : Int64) : Int64 :=
  s.typed StoredValue.long? key default

def getFloat (s : Store) (key : String) (default : Single) : Single :=
  s.typed StoredValue.float? key default

def getString (s : Store) (key : String) (default : String) : String :=
  s.typed StoredValue.string? key default

def getSet (s : Store) (key : String) (default : List String) : List String :=
  s.typed StoredValue.set? key default

end Store

end TypedSettings
