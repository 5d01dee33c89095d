import Mathlib.Data.String.Basic
import TypedSettings.Store.Basic

/-!
What a change does to the contents of a store. Contents are read key by key: a change decides what
is under its own key and leaves the others alone. A put may leave the old value, and only where it
is the same as the new one: then the two are alike.

* `get?_insert`, `get?_erase`: what is under a key after a write.
* `change_self`, `change_other`: what is under a key after a change.
* `Sorted.replay`: keys stay in order, each once.
-/

namespace TypedSettings

/-! ## Values that a put may leave -/

/-- The same float, or another one that is the same number. -/
def Single.Alike (x y : Single) : Prop := x = y ∨ x.same y = true

namespace StoredValue

/-- The same value, or values of which writing one over the other changes nothing. -/
def Alike (v w : StoredValue) : Prop := v = w ∨ v.same w = true

theorem Alike.refl (v : StoredValue) : v.Alike v := .inl rfl

/-- Apart from floats the same value is the value itself. -/
theorem same_cases {v w : StoredValue} (h : v.same w = true) :
    v = w ∨ ∃ x y, v = float x ∧ w = float y ∧ x.same y = true := by
  cases v with
  | float x =>
    cases w with
    | float y => exact .inr ⟨x, y, rfl, rfl, h⟩
    | bool _ | int _ | long _ | string _ | set _ => simp [same] at h
  | bool _ | int _ | long _ | string _ | set _ => exact .inl (by simpa [same] using h)

theorem Alike.cases {v w : StoredValue} (h : v.Alike w) :
    v = w ∨ ∃ x y, v = float x ∧ w = float y ∧ x.same y = true :=
  h.elim .inl same_cases

end StoredValue

namespace Entries

/-! ## Reads after writes -/

@[simp] theorem get?_nil (key : String) : get? [] key = none := rfl

theorem get?_cons (k : String) (v : StoredValue) (e : Entries) (key : String) :
    get? ((k, v) :: e) key = if key = k then some v else e.get? key := by
  unfold get?
  by_cases h : key = k
  · simp [h]
  · rw [List.lookup_cons, beq_false_of_ne h, if_neg h]

theorem get?_insert (e : Entries) (k key : String) (v : StoredValue) :
    (e.insert k v).get? key = if key = k then some v else e.get? key := by
  induction e with
  | nil => simp [insert, get?_cons]
  | cons p rest ih =>
    obtain ⟨k', v'⟩ := p
    unfold insert
    by_cases heq : k = k'
    · subst heq
      rw [if_pos rfl, get?_cons, get?_cons]
      split <;> rfl
    · rw [if_neg heq]
      by_cases hlt : k < k'
      · rw [if_pos hlt, get?_cons]
      · -- the new entry goes further back, so the first one is read as before
        rw [if_neg hlt, get?_cons, ih, get?_cons]
        by_cases hkey : key = k'
        · rw [if_pos hkey, if_pos hkey, if_neg (by rw [hkey]; exact Ne.symm heq)]
        · rw [if_neg hkey, if_neg hkey]

theorem get?_erase (e : Entries) (k key : String) :
    (e.erase k).get? key = if key = k then none else e.get? key := by
  induction e with
  | nil => simp [erase]
  | cons p rest ih =>
    obtain ⟨k', v'⟩ := p
    unfold erase at ih ⊢
    by_cases heq : k' = k
    · rw [List.filter_cons_of_neg (by simpa using heq), ih, get?_cons, heq]
      split <;> rfl
    · rw [List.filter_cons_of_pos (by simpa using heq), get?_cons, ih, get?_cons]
      by_cases hkey : key = k'
      · rw [if_pos hkey, if_pos hkey, if_neg (by rw [hkey]; exact heq)]
      · rw [if_neg hkey, if_neg hkey]

theorem mem_keys_iff {e : Entries} {key : String} :
    key ∈ e.keys ↔ (e.get? key).isSome = true := by
  simp [keys, get?, List.lookup_isSome_iff]

/-! ## The order of keys -/

/-- Keys are in order, each once. -/
def Sorted (e : Entries) : Prop := e.keys.Pairwise (· < ·)

theorem sorted_nil : Sorted [] := List.Pairwise.nil

theorem mem_keys_insert {e : Entries} {k key : String} {v : StoredValue} :
    key ∈ (e.insert k v).keys ↔ key = k ∨ key ∈ e.keys := by
  rw [mem_keys_iff, mem_keys_iff, get?_insert]
  by_cases h : key = k <;> simp [h]

theorem Sorted.insert {e : Entries} (h : e.Sorted) (k : String) (v : StoredValue) :
    Sorted (e.insert k v) := by
  induction e with
  | nil => exact List.pairwise_singleton _ _
  | cons p rest ih =>
    obtain ⟨k', v'⟩ := p
    obtain ⟨hfirst, hrest⟩ := List.pairwise_cons.1 h
    unfold Entries.insert
    by_cases heq : k = k'
    · rw [if_pos heq]
      subst heq
      exact h
    · rw [if_neg heq]
      by_cases hlt : k < k'
      · rw [if_pos hlt]
        refine List.pairwise_cons.2 ⟨fun key hkey => ?_, h⟩
        rcases List.mem_cons.1 hkey with rfl | hkey
        · exact hlt
        · exact hlt.trans (hfirst key hkey)
      · rw [if_neg hlt]
        have hgt : k' < k := lt_of_le_of_ne (not_lt.1 hlt) (Ne.symm heq)
        refine List.pairwise_cons.2 ⟨fun key hkey => ?_, ih hrest⟩
        rcases mem_keys_insert.1 hkey with rfl | hkey
        · exact hgt
        · exact hfirst key hkey

theorem Sorted.erase {e : Entries} (h : e.Sorted) (k : String) : Sorted (e.erase k) :=
  List.pairwise_map.2 ((List.pairwise_map.1 h).filter _)

end Entries

/-! ## Changes -/

namespace Change

/-- The key that a change is about. -/
def key : Change → String
  | put key _ => key
  | remove key => key

/-- What a change wants under its key. -/
def written : Change → Option StoredValue
  | put _ value => some value
  | remove _ => none

end Change

namespace Store

/-- All that a change can do to contents, and the keys that it touches. -/
inductive Changed (e : Entries) : Change → Entries × List String → Prop
  | kept {key : String} {value old : StoredValue} (hold : e.get? key = some old)
      (hsame : old.same value = true) : Changed e (.put key value) (e, [])
  | put {key : String} {value : StoredValue}
      (hnew : ∀ old, e.get? key = some old → old.same value = false) :
      Changed e (.put key value) (e.insert key value, [key])
  | removed {key : String} (hthere : (e.get? key).isSome = true) :
      Changed e (.remove key) (e.erase key, [key])
  | absent {key : String} (hnone : e.get? key = none) : Changed e (.remove key) (e, [])

theorem changed (e : Entries) (c : Change) : Changed e c (change e c) := by
  cases c with
  | put key value =>
    simp only [change]
    split
    · next old hold =>
      split
      · next hsame => exact .kept hold hsame
      · next hsame =>
        refine .put fun old' h => ?_
        rw [hold] at h
        cases h
        exact eq_false_of_ne_true hsame
    · next hnone => exact .put fun old h => by rw [hnone] at h; cases h
  | remove key =>
    simp only [change]
    split
    · next hthere => exact .removed hthere
    · next hthere => exact .absent (by simpa [Entries.contains] using hthere)

/-- Under the key of a change is what the change wants there, up to values alike. -/
theorem change_self (e : Entries) (c : Change) :
    Option.Rel StoredValue.Alike ((change e c).1.get? c.key) c.written := by
  have h := changed e c
  generalize change e c = r at h ⊢
  cases h with
  | @kept key value old hold hsame =>
    -- the old value stays, and it is the same as the new one
    show Option.Rel _ (e.get? key) (some value)
    rw [hold]
    exact .some (.inr hsame)
  | @put key value _ =>
    show Option.Rel _ ((e.insert key value).get? key) (some value)
    rw [Entries.get?_insert, if_pos rfl]
    exact .some (.refl value)
  | @removed key _ =>
    show Option.Rel _ ((e.erase key).get? key) none
    rw [Entries.get?_erase, if_pos rfl]
    exact .none
  | @absent key hnone =>
    show Option.Rel _ (e.get? key) none
    rw [hnone]
    exact .none

/-- A change leaves the other keys alone. -/
theorem change_other (e : Entries) (c : Change) {key : String} (hkey : key ≠ c.key) :
    (change e c).1.get? key = e.get? key := by
  have h := changed e c
  generalize change e c = r at h ⊢
  cases h with
  | kept _ _ => rfl
  | put _ => exact (Entries.get?_insert e _ _ _).trans (if_neg hkey)
  | removed _ => exact (Entries.get?_erase e _ _).trans (if_neg hkey)
  | absent _ => rfl

theorem sorted_change {e : Entries} (he : e.Sorted) (c : Change) : (change e c).1.Sorted := by
  have h := changed e c
  generalize change e c = r at h ⊢
  cases h with
  | kept _ _ => exact he
  | put _ => exact he.insert _ _
  | removed _ => exact he.erase _
  | absent _ => exact he

theorem changeAll_append (e : Entries) (cs ds : List Change) :
    (changeAll e (cs ++ ds)).1 = (changeAll (changeAll e cs).1 ds).1 := by
  induction cs generalizing e with
  | nil => rfl
  | cons c cs ih => exact ih (change e c).1

theorem sorted_changeAll {e : Entries} (he : e.Sorted) (cs : List Change) :
    (changeAll e cs).1.Sorted := by
  induction cs generalizing e with
  | nil => exact he
  | cons c cs ih => exact ih (sorted_change he c)

/-- An editor changes what is there, or nothing where it clears. -/
theorem replay_fst (e : Entries) (editor : Editor) :
    (replay e editor).1 = (changeAll (if editor.clears then [] else e) editor.changes).1 := by
  unfold replay
  split <;> rfl

theorem sorted_replay {e : Entries} (he : e.Sorted) (editor : Editor) :
    (replay e editor).1.Sorted := by
  rw [replay_fst]
  refine sorted_changeAll ?_ _
  split
  · exact Entries.sorted_nil
  · exact he

theorem register_entries (s : Store) (listener : String) :
    (s.register listener).entries = s.entries := by
  unfold register
  split <;> rfl

end Store

end TypedSettings
