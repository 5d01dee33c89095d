import Mathlib.Data.List.Induction
import Mathlib.Logic.Function.Basic
import TypedSettings.Proofs.Store.Entries

/-!
A store under any number of editors. A session is the calls that programs make to one store and its
editors, in the order in which they happen; what was called on an editor is its batch once the
editor is published. The reference is the replay of the published batches: key by key, the last put
or remove of a batch decides, and else a batch that clears leaves nothing. The store clears up
front, skips values that are there already, and sees all calls of all editors mixed together.

* `replay_alike`: publishing one editor does what its batch says.
* `Follows.step`: an editor collects what was called on it, whatever happens in between.
* `run_replays`: at every moment of a session every read answers as the replay does.
-/

namespace TypedSettings

/-! ## Batches -/

/-- A call that adds to an editor. -/
inductive EditCall where
  | put (key : String) (value : StoredValue)
  | remove (key : String)
  | clear
deriving DecidableEq, Repr

/-- The calls to one editor, in order. -/
abbrev Edits := List EditCall

/-- What is under each key. -/
abbrev Contents := String → Option StoredValue

/-- What a call decides for a key, if it is a put or a remove of that key. -/
def EditCall.decides? (key : String) : EditCall → Option (Option StoredValue)
  | put k value => if key = k then some (some value) else none
  | remove k => if key = k then some none else none
  | clear => none

namespace Edits

/-- What the last put or remove of a key decides. -/
def last? (batch : Edits) (key : String) : Option (Option StoredValue) :=
  (batch.filterMap (EditCall.decides? key)).getLast?

/-- The contents after a batch. -/
def after (batch : Edits) (before : Contents) : Contents := fun key =>
  (batch.last? key).getD (if .clear ∈ batch then none else before key)

theorem last?_concat (batch : Edits) (c : EditCall) (key : String) :
    last? (batch ++ [c]) key = (c.decides? key).or (batch.last? key) := by
  unfold last?
  rw [List.filterMap_append, List.getLast?_append]
  cases h : c.decides? key with
  | none => simp [h]
  | some written => simp [h]

end Edits

/-- The contents after batches, one after the other, of a store that was empty. -/
def Contents.replay (batches : List Edits) : Contents :=
  batches.foldl (fun before batch => batch.after before) fun _ => none

namespace Editor

/-- An editor after a call. -/
def call (e : Editor) : EditCall → Editor
  | .put key value => e.put key value
  | .remove key => e.remove key
  | .clear => e.clear

/-- A new editor after the calls of a batch. -/
def ofBatch (batch : Edits) : Editor := batch.foldl call {}

theorem ofBatch_concat (batch : Edits) (c : EditCall) :
    ofBatch (batch ++ [c]) = (ofBatch batch).call c := by
  simp [ofBatch]

theorem ofBatch_clears (batch : Edits) : (ofBatch batch).clears = true ↔ .clear ∈ batch := by
  induction batch using List.reverseRecOn with
  | nil => simp [ofBatch]
  | append_singleton batch c ih =>
    rw [ofBatch_concat, List.mem_append, ← ih]
    cases c <;> simp [call, put, remove, clear]

end Editor

/-! ## One editor is published -/

namespace Store

/-- A change decides for its key, and leaves what was there for the others. -/
theorem change_alike {e : Entries} {key : String} {before : Option StoredValue}
    (h : Option.Rel StoredValue.Alike (e.get? key) before) (c : Change) :
    Option.Rel StoredValue.Alike ((change e c).1.get? key)
      ((if key = c.key then some c.written else none).getD before) := by
  by_cases hkey : key = c.key
  · rw [if_pos hkey, hkey]
    exact change_self e c
  · rw [if_neg hkey, change_other e c hkey]
    exact h

/-- One more call to an editor decides for its key, if it is a put or a remove. -/
theorem call_alike {e : Entries} {editor : Editor} {key : String} {before : Option StoredValue}
    (h : Option.Rel StoredValue.Alike ((changeAll e editor.changes).1.get? key) before)
    (c : EditCall) :
    Option.Rel StoredValue.Alike ((changeAll e (editor.call c).changes).1.get? key)
      ((c.decides? key).getD before) := by
  cases c with
  | put k value =>
    rw [Editor.call, Editor.put, changeAll_append]
    exact change_alike h (.put k value)
  | remove k =>
    rw [Editor.call, Editor.remove, changeAll_append]
    exact change_alike h (.remove k)
  | clear => exact h

/-- The changes of an editor leave under each key what the last call about it decides. -/
theorem changeAll_alike (batch : Edits) {e : Entries} {key : String} {before : Option StoredValue}
    (h : Option.Rel StoredValue.Alike (e.get? key) before) :
    Option.Rel StoredValue.Alike ((changeAll e (Editor.ofBatch batch).changes).1.get? key)
      ((batch.last? key).getD before) := by
  induction batch using List.reverseRecOn with
  | nil => exact h
  | append_singleton batch c ih =>
    rw [Editor.ofBatch_concat, Edits.last?_concat, Option.getD_or]
    exact call_alike ih c

/-- Publishing an editor does to contents what its batch says. -/
theorem replay_alike (batch : Edits) {e : Entries} {before : Contents}
    (h : ∀ key, Option.Rel StoredValue.Alike (e.get? key) (before key)) (key : String) :
    Option.Rel StoredValue.Alike ((replay e (Editor.ofBatch batch)).1.get? key)
      (batch.after before key) := by
  rw [replay_fst]
  refine changeAll_alike batch ?_
  by_cases hclear : .clear ∈ batch
  · rw [if_pos hclear, if_pos ((Editor.ofBatch_clears batch).2 hclear)]
    exact .none
  · rw [if_neg hclear, if_neg (mt (Editor.ofBatch_clears batch).1 hclear)]
    exact h key

end Store

/-! ## Sessions -/

/-- A call to a store or to one of its editors, which have numbers. -/
inductive Call where
  /-- makes a new editor -/
  | edit (editor : Nat)
  | on (editor : Nat) (call : EditCall)
  | apply (editor : Nat)
  | commit (editor : Nat)
  /-- lets an editor go that is not published -/
  | drop (editor : Nat)
  | register (listener : String)
  | unregister (listener : String)
deriving DecidableEq, Repr

/-- Whether a call publishes an editor. -/
def Call.publishes : Call → Bool
  | apply _ | commit _ => true
  | _ => false

/-- A store and its open editors. -/
structure Session where
  store : Store := {}
  editors : Nat → Option Editor := fun _ => none

namespace Session

/-- Publishes an editor, which is gone then. -/
def publish (s : Session) (i : Nat) : Session :=
  match s.editors i with
  | some editor =>
    { store := (s.store.publish editor).1, editors := Function.update s.editors i none }
  | none => s

def step (s : Session) : Call → Session
  | .edit i => { s with editors := Function.update s.editors i (some {}) }
  | .on i c => { s with editors := Function.update s.editors i ((s.editors i).map (·.call c)) }
  | .apply i => s.publish i
  | .commit i => s.publish i
  | .drop i => { s with editors := Function.update s.editors i none }
  | .register listener => { s with store := s.store.register listener }
  | .unregister listener => { s with store := s.store.unregister listener }

def run (calls : List Call) : Session := calls.foldl step {}

end Session

/-! ## What was published -/

/-- The batches of the open editors, and the batches that were published, in that order. -/
structure Log where
  pending : Nat → Option Edits := fun _ => none
  published : List Edits := []

namespace Log

/-- Writes down the publication of an editor. -/
def publish (l : Log) (i : Nat) : Log :=
  match l.pending i with
  | some batch =>
    { pending := Function.update l.pending i none, published := l.published ++ [batch] }
  | none => l

def step (l : Log) : Call → Log
  | .edit i => { l with pending := Function.update l.pending i (some []) }
  | .on i c => { l with pending := Function.update l.pending i ((l.pending i).map (· ++ [c])) }
  | .apply i | .commit i => l.publish i
  | .drop i => { l with pending := Function.update l.pending i none }
  | .register _ | .unregister _ => l

def ofCalls (calls : List Call) : Log := calls.foldl step {}

end Log

/-! ## Sessions follow their logs -/

namespace Session

/-- Editors hold their batches, and the store holds what the published batches left. -/
structure Follows (s : Session) (l : Log) : Prop where
  editors : s.editors = fun i => (l.pending i).map Editor.ofBatch
  contents : ∀ key,
    Option.Rel StoredValue.Alike (s.store.get? key) (Contents.replay l.published key)
  sorted : s.store.entries.Sorted

theorem map_update (pending : Nat → Option Edits) (i : Nat) (batch : Option Edits) :
    (fun j => (Function.update pending i batch j).map Editor.ofBatch)
      = Function.update (fun j => (pending j).map Editor.ofBatch) i (batch.map Editor.ofBatch) :=
  (Function.comp_update (Option.map Editor.ofBatch) pending i batch)

theorem Follows.publish {s : Session} {l : Log} (h : s.Follows l) (i : Nat) :
    (s.publish i).Follows (l.publish i) := by
  have hi : s.editors i = (l.pending i).map Editor.ofBatch := congrFun h.editors i
  unfold Session.publish Log.publish
  cases hbatch : l.pending i with
  | none =>
    rw [hbatch] at hi
    simp only [hi, Option.map_none]
    exact h
  | some batch =>
    rw [hbatch] at hi
    simp only [hi, Option.map_some]
    refine ⟨?_, fun key => ?_, Store.sorted_replay h.sorted _⟩
    · rw [h.editors, map_update]
      rfl
    · rw [Contents.replay, List.foldl_append]
      exact Store.replay_alike batch h.contents key

/-- One call keeps a session in step with its log. -/
theorem Follows.step {s : Session} {l : Log} (h : s.Follows l) (c : Call) :
    (s.step c).Follows (l.step c) := by
  cases c with
  | edit i =>
    refine ⟨?_, h.contents, h.sorted⟩
    rw [Session.step, Log.step, map_update, h.editors]
    rfl
  | on i c =>
    refine ⟨?_, h.contents, h.sorted⟩
    rw [Session.step, Log.step, map_update, h.editors]
    -- the editor of a batch and one more call is the batch's editor after that call
    cases hbatch : l.pending i with
    | none => simp [hbatch]
    | some batch => simp [hbatch, Editor.ofBatch_concat]
  | apply i => exact h.publish i
  | commit i => exact h.publish i
  | drop i =>
    refine ⟨?_, h.contents, h.sorted⟩
    rw [Session.step, Log.step, map_update, h.editors]
    rfl
  | register listener =>
    refine ⟨h.editors, fun key => ?_, ?_⟩
    · show Option.Rel _ ((s.store.register listener).entries.get? key) _
      rw [Store.register_entries]
      exact h.contents key
    · show (s.store.register listener).entries.Sorted
      rw [Store.register_entries]
      exact h.sorted
  | unregister listener => exact ⟨h.editors, h.contents, h.sorted⟩

/-- A session follows its log at every moment. -/
theorem follows_run (calls : List Call) : (run calls).Follows (Log.ofCalls calls) := by
  induction calls using List.reverseRecOn with
  | nil => exact ⟨rfl, fun _ => .none, Entries.sorted_nil⟩
  | append_singleton calls c ih =>
    rw [run, Log.ofCalls, List.foldl_append, List.foldl_append]
    exact ih.step c

/-- A call that publishes nothing leaves the contents as they are. -/
theorem step_entries (s : Session) {c : Call} (hc : c.publishes = false) :
    (s.step c).store.entries = s.store.entries := by
  cases c with
  | apply _ | commit _ => cases hc
  | edit _ | on _ _ | drop _ | unregister _ => rfl
  | register listener => exact Store.register_entries s.store listener

theorem foldl_step_entries (s : Session) {calls : List Call}
    (hcalls : ∀ c ∈ calls, c.publishes = false) :
    (calls.foldl step s).store.entries = s.store.entries := by
  induction calls generalizing s with
  | nil => rfl
  | cons c calls ih =>
    rw [List.foldl_cons, ih (s.step c) fun c' hc' => hcalls c' (List.mem_cons_of_mem c hc'),
      step_entries s (hcalls c List.mem_cons_self)]

end Session

/-! ## Reads -/

namespace Store

/-- Every read of a store answers as the contents say: with the value under the key where it is of
the kind that is asked for, and with the default otherwise. A float is the one that is stored,
which may be the other zero. -/
structure Shows (s : Store) (contents : Contents) : Prop where
  value : ∀ key, Option.Rel StoredValue.Alike (s.get? key) (contents key)
  bool : ∀ key default,
    s.getBool key default = ((contents key).bind StoredValue.bool?).getD default
  int : ∀ key default, s.getInt key default = ((contents key).bind StoredValue.int?).getD default
  long : ∀ key default,
    s.getLong key default = ((contents key).bind StoredValue.long?).getD default
  float : ∀ key default,
    s.getFloat key default = ((s.get? key).bind StoredValue.float?).getD default ∧
      (s.getFloat key default).Alike (((contents key).bind StoredValue.float?).getD default)
  string : ∀ key default,
    s.getString key default = ((contents key).bind StoredValue.string?).getD default
  set : ∀ key default, s.getSet key default = ((contents key).bind StoredValue.set?).getD default
  contains : ∀ key, s.entries.contains key = (contents key).isSome
  mem_keys : ∀ key, key ∈ s.entries.keys ↔ (contents key).isSome = true
  keys_sorted : s.entries.keys.Pairwise (· < ·)

/-- Alike values that are no floats are read the same. -/
theorem typed_eq {α : Type} {pick : StoredValue → Option α} (hpick : ∀ x, pick (.float x) = none)
    {s : Store} {key : String} {v : Option StoredValue}
    (h : Option.Rel StoredValue.Alike (s.get? key) v) (default : α) :
    s.typed pick key default = (v.bind pick).getD default := by
  unfold typed
  generalize s.get? key = stored at h
  cases h with
  | none => rfl
  | some hvw =>
    rcases hvw.cases with rfl | ⟨x, y, rfl, rfl, -⟩
    · rfl
    · rw [Option.bind_some, Option.bind_some, hpick, hpick]

theorem getFloat_alike {s : Store} {key : String} {v : Option StoredValue}
    (h : Option.Rel StoredValue.Alike (s.get? key) v) (default : Single) :
    (s.getFloat key default).Alike ((v.bind StoredValue.float?).getD default) := by
  unfold getFloat typed
  generalize s.get? key = stored at h
  cases h with
  | none => exact .inl rfl
  | some hvw =>
    rcases hvw.cases with rfl | ⟨x, y, rfl, rfl, hsame⟩
    · exact .inl rfl
    · exact .inr hsame

/-- A store whose values are alike those of the contents shows the contents. -/
theorem shows_of_alike {s : Store} {contents : Contents}
    (h : ∀ key, Option.Rel StoredValue.Alike (s.get? key) (contents key))
    (hsorted : s.entries.Sorted) : s.Shows contents := by
  have hsome (key : String) : (s.get? key).isSome = (contents key).isSome := by
    have hkey := h key
    generalize s.get? key = stored, contents key = v at hkey
    cases hkey <;> rfl
  exact {
    value := h
    bool := fun key => typed_eq (fun _ => rfl) (h key)
    int := fun key => typed_eq (fun _ => rfl) (h key)
    long := fun key => typed_eq (fun _ => rfl) (h key)
    float := fun key default => ⟨rfl, getFloat_alike (h key) default⟩
    string := fun key => typed_eq (fun _ => rfl) (h key)
    set := fun key => typed_eq (fun _ => rfl) (h key)
    contains := hsome
    mem_keys := fun key => by rw [Entries.mem_keys_iff, ← hsome key]; rfl
    keys_sorted := hsorted }

end Store

namespace Session

/-- **At every moment a store shows the replay of the batches that were published.** The calls of
the session are those of all editors, in any order; and whatever is called after that moment, as
long as nothing is published, every key keeps its value. -/
theorem run_replays (calls : List Call) :
    (run calls).store.Shows (Contents.replay (Log.ofCalls calls).published) ∧
      ∀ later : List Call, (∀ c ∈ later, c.publishes = false) →
        (run (calls ++ later)).store.entries = (run calls).store.entries := by
  refine ⟨?_, fun later hlater => ?_⟩
  · have h := follows_run calls
    exact Store.shows_of_alike h.contents h.sorted
  · rw [run, run, List.foldl_append]
    exact foldl_step_entries _ hlater

/-- Two editors are open at once. The first one clears after it put the volume, which it put twice,
and the second one is published before it; the third one is never published. -/
theorem run_replays_radio :
    let calls : List Call :=
      [.edit 0, .edit 1, .on 0 (.put "volume" (.int 3)), .on 1 (.put "station" (.string "fm")),
        .on 0 (.put "volume" (.int 5)), .on 0 .clear, .commit 1, .apply 0]
    let later : List Call := [.edit 2, .on 2 (.remove "volume")]
    (run calls).store.getInt "volume" 0 = 5 ∧
      (run calls).store.getString "volume" "none" = "none" ∧
      (run calls).store.entries.contains "station" = false ∧
      (run (calls ++ later)).store.entries = (run calls).store.entries :=
  ⟨(run_replays _).1.int "volume" 0, (run_replays _).1.string "volume" "none",
    (run_replays _).1.contains "station", (run_replays _).2 _ (by decide)⟩

end Session

end TypedSettings
