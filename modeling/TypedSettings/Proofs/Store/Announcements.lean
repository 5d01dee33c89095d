import TypedSettings.Proofs.Store.Replay
import TypedSettings.Proofs.Text.Sorted

/-!
What listeners hear when an editor is published. The store collects keys on the way: those that a
clear drops, and those of the changes that do something. The reference is the contents before and
after the batch, and the values that a key has in between.

* `mem_touched_of_ne`: no key whose value is another one afterwards is missed.
* `mem_touched_cases`: a key is collected only where the batch is about it.
* `run_listeners`: the listeners of a store are those of which a registration still holds.
* `publish_announces`: what is announced, and to whom.
* `publish_event_iff`: a key is announced when it has another value at some moment of the batch,
  also where the last one is as before.
-/

namespace TypedSettings

/-! ## Keys that changes touch -/

namespace Store

variable {e : Entries} {key : String}

/-- A change touches its own key or none. -/
theorem key_of_mem_change {c : Change} (h : key ∈ (change e c).2) : key = c.key := by
  have hc := changed e c
  generalize change e c = r at hc h
  cases hc with
  | kept _ _ | absent _ => cases h
  | put _ | removed _ => exact List.mem_singleton.1 h

/-- A change that touches nothing does nothing. -/
theorem mem_change_of_ne {c : Change} (h : (change e c).1.get? key ≠ e.get? key) :
    key ∈ (change e c).2 := by
  have hkey : key = c.key := by
    by_contra hkey
    exact h (change_other e c hkey)
  have hc := changed e c
  generalize change e c = r at hc h
  cases hc with
  | kept _ _ | absent _ => exact absurd rfl h
  | put _ | removed _ => exact List.mem_singleton.2 hkey

theorem key_of_mem_changeAll {cs : List Change} (h : key ∈ (changeAll e cs).2) :
    ∃ c ∈ cs, key = c.key := by
  induction cs generalizing e with
  | nil => cases h
  | cons c cs ih =>
    rcases List.mem_append.1 h with h | h
    · exact ⟨c, List.mem_cons_self, key_of_mem_change h⟩
    · obtain ⟨c', hc', hkey⟩ := ih h
      exact ⟨c', List.mem_cons_of_mem _ hc', hkey⟩

theorem mem_changeAll_of_ne {cs : List Change} (h : (changeAll e cs).1.get? key ≠ e.get? key) :
    key ∈ (changeAll e cs).2 := by
  induction cs generalizing e with
  | nil => exact absurd rfl h
  | cons c cs ih =>
    -- a value that is another one at the end changed at once or later
    by_cases hlater : (changeAll (change e c).1 cs).1.get? key = (change e c).1.get? key
    · exact List.mem_append_left _ (mem_change_of_ne (hlater ▸ h))
    · exact List.mem_append_right _ (ih hlater)

/-- The keys that an editor touches: those that its clear drops, and those of its changes. -/
theorem mem_replay {editor : Editor} :
    key ∈ (replay e editor).2 ↔
      (editor.clears = true ∧ (e.get? key).isSome = true) ∨
        key ∈ (changeAll (if editor.clears then [] else e) editor.changes).2 := by
  unfold replay
  cases editor.clears with
  | false => simp
  | true => simp [Entries.mem_keys_iff]

end Store

/-! ## The changes of a batch -/

/-- The change that a call asks for. -/
def EditCall.change? : EditCall → Option Change
  | put key value => some (.put key value)
  | remove key => some (.remove key)
  | clear => none

theorem Editor.ofBatch_changes (batch : Edits) :
    (ofBatch batch).changes = batch.filterMap EditCall.change? := by
  induction batch using List.reverseRecOn with
  | nil => rfl
  | append_singleton batch c ih =>
    rw [ofBatch_concat, List.filterMap_append, ← ih]
    cases c with
    | put _ _ | remove _ => rfl
    | clear => exact (List.append_nil _).symm

namespace Edits

variable {batch : Edits} {e : Entries} {key : String}

/-- A batch is about the keys that it puts or removes, and about those that its clear drops. -/
def Concerns (batch : Edits) (before : Contents) (key : String) : Prop :=
  (∃ value, .put key value ∈ batch) ∨ .remove key ∈ batch ∨
    (.clear ∈ batch ∧ (before key).isSome = true)

theorem mem_touched_cases (h : key ∈ (Store.replay e (Editor.ofBatch batch)).2) :
    batch.Concerns e.get? key := by
  rcases Store.mem_replay.1 h with ⟨hclear, hthere⟩ | h
  · exact .inr (.inr ⟨(Editor.ofBatch_clears batch).1 hclear, hthere⟩)
  · obtain ⟨change, hchange, rfl⟩ := Store.key_of_mem_changeAll h
    rw [Editor.ofBatch_changes] at hchange
    obtain ⟨c, hc, hask⟩ := List.mem_filterMap.1 hchange
    cases c with
    | put k value =>
      cases hask
      exact .inl ⟨value, hc⟩
    | remove k =>
      cases hask
      exact .inr (.inl hc)
    | clear => cases hask

theorem mem_touched_of_ne
    (h : (Store.replay e (Editor.ofBatch batch)).1.get? key ≠ e.get? key) :
    key ∈ (Store.replay e (Editor.ofBatch batch)).2 := by
  rw [Store.replay_fst] at h
  rw [Store.mem_replay]
  by_cases hclear : (Editor.ofBatch batch).clears = true
  · rw [if_pos hclear] at h ⊢
    by_cases hthere : (e.get? key).isSome = true
    · exact .inl ⟨hclear, hthere⟩
    · -- nothing was under the key, so what is there now was put there after the clear
      refine .inr (Store.mem_changeAll_of_ne ?_)
      rwa [Option.not_isSome_iff_eq_none.1 hthere] at h
  · rw [if_neg hclear] at h ⊢
    exact .inr (Store.mem_changeAll_of_ne h)

end Edits

/-! ## Listeners -/

theorem eraseDups_filter (p : String → Bool) (l : List String) :
    (l.filter p).eraseDups = l.eraseDups.filter p := by
  induction hn : l.length using Nat.strong_induction_on generalizing l with
  | _ n ih =>
    cases l with
    | nil => rfl
    | cons a rest =>
      have hshort : (rest.filter fun b => !b == a).length < n :=
        hn ▸ Nat.lt_succ_of_le (List.length_filter_le _ _)
      have hrest := ih _ hshort (rest.filter fun b => !b == a) rfl
      rw [List.eraseDups_cons, List.filter_cons, List.filter_cons, ← hrest]
      by_cases ha : p a = true
      · rw [if_pos ha, if_pos ha, List.eraseDups_cons, List.filter_filter, List.filter_filter]
        simp only [Bool.and_comm]
      · -- what is left out by `p` includes the repetitions of `a`
        rw [if_neg ha, if_neg ha, List.filter_filter]
        congr 1
        refine List.filter_congr fun b _ => ?_
        by_cases hb : b = a
        · simp [hb, ha]
        · simp [hb]

theorem eraseDups_nodup (l : List String) : l.eraseDups.Nodup := by
  induction hn : l.length using Nat.strong_induction_on generalizing l with
  | _ n ih =>
    cases l with
    | nil => exact .nil
    | cons a rest =>
      have hshort : (rest.filter fun b => !b == a).length < n :=
        hn ▸ Nat.lt_succ_of_le (List.length_filter_le _ _)
      rw [List.eraseDups_cons]
      refine List.nodup_cons.2 ⟨fun ha => ?_, ih _ hshort _ rfl⟩
      simpa using List.mem_eraseDups.1 ha

namespace Call

/-- The registrations that no later call takes back, in order. -/
def registrations : List Call → List String
  | [] => []
  | .register listener :: later =>
    if .unregister listener ∈ later then registrations later
    else listener :: registrations later
  | _ :: later => registrations later

/-- The listeners after some calls. Where several registrations of a listener hold, the first of
them gives it its place. -/
def registered (calls : List Call) : List String := (registrations calls).eraseDups

theorem registrations_subset (c : Call) (calls : List Call) :
    registrations calls ⊆ registrations (c :: calls) := by
  cases c with
  | register listener =>
    rw [registrations]
    split
    · exact List.Subset.refl _
    · exact List.subset_cons_self _ _
  | edit _ | on _ _ | apply _ | commit _ | drop _ | unregister _ => exact List.Subset.refl _

/-- A listener is registered where a registration of it is not taken back. -/
theorem mem_registrations_iff {calls : List Call} {listener : String} :
    listener ∈ registrations calls ↔
      ∃ earlier later, calls = earlier ++ .register listener :: later ∧
        .unregister listener ∉ later := by
  induction calls with
  | nil => simp [registrations]
  | cons c calls ih =>
    constructor
    · intro h
      by_cases hrest : listener ∈ registrations calls
      · obtain ⟨earlier, later, rfl, hlater⟩ := ih.1 hrest
        exact ⟨c :: earlier, later, rfl, hlater⟩
      · -- the first call is the registration
        cases c with
        | register l =>
          rw [registrations] at h
          split at h
          · exact absurd h hrest
          · next hlater =>
            rcases List.mem_cons.1 h with rfl | h
            · exact ⟨[], calls, rfl, hlater⟩
            · exact absurd h hrest
        | edit _ | on _ _ | apply _ | commit _ | drop _ | unregister _ => exact absurd h hrest
    · rintro ⟨earlier, later, heq, hlater⟩
      cases earlier with
      | nil =>
        obtain ⟨rfl, rfl⟩ := List.cons.inj heq
        rw [registrations, if_neg hlater]
        exact List.mem_cons_self
      | cons first earlier =>
        obtain ⟨-, rfl⟩ := List.cons.inj heq
        exact registrations_subset _ _ (ih.2 ⟨earlier, later, rfl, hlater⟩)

/-- What one more call does to the registrations that hold. -/
def afterRegistrations (holding : List String) : Call → List String
  | .register listener => holding ++ [listener]
  | .unregister listener => holding.filter (· ≠ listener)
  | _ => holding

theorem registrations_concat (calls : List Call) (last : Call) :
    registrations (calls ++ [last]) = afterRegistrations (registrations calls) last := by
  induction calls with
  | nil => cases last <;> simp [registrations, afterRegistrations]
  | cons c calls ih =>
    cases c with
    | register l =>
      rw [List.cons_append, registrations, registrations, ih]
      by_cases htaken : .unregister l ∈ calls
      · rw [if_pos htaken, if_pos (List.mem_append_left _ htaken)]
      · rw [if_neg htaken]
        cases last with
        | unregister listener =>
          -- the last call takes this registration back, or it leaves it where it is
          by_cases hl : l = listener <;> simp [afterRegistrations, htaken, hl]
        | register _ | edit _ | on _ _ | apply _ | commit _ | drop _ =>
          simp [afterRegistrations, htaken]
    | edit _ | on _ _ | apply _ | commit _ | drop _ | unregister _ => exact ih

end Call

namespace Session

theorem publish_listeners (s : Session) (i : Nat) :
    (s.publish i).store.listeners = s.store.listeners := by
  unfold Session.publish
  split <;> rfl

/-- One call to a store and its editors. -/
theorem step_listeners {s : Session} {holding : List String}
    (h : s.store.listeners = holding.eraseDups) (c : Call) :
    (s.step c).store.listeners = (Call.afterRegistrations holding c).eraseDups := by
  cases c with
  | register listener =>
    show (s.store.register listener).listeners = (holding ++ [listener]).eraseDups
    rw [List.eraseDups_append, ← h, Store.register]
    by_cases hthere : s.store.listeners.contains listener = true
    · have hmem : listener ∈ holding := by
        rw [h, List.contains_iff_mem] at hthere
        exact List.mem_eraseDups.1 hthere
      rw [if_pos hthere]
      simp [List.removeAll, hmem]
    · have hmem : listener ∉ holding := by
        intro hmem
        rw [h, List.contains_iff_mem] at hthere
        exact hthere (List.mem_eraseDups.2 hmem)
      rw [if_neg hthere]
      simp [List.removeAll, hmem, List.eraseDups_cons]
  | unregister listener =>
    show (s.store.unregister listener).listeners = (holding.filter (· ≠ listener)).eraseDups
    rw [Store.unregister, eraseDups_filter, h]
  | apply i | commit i => exact (publish_listeners s i).trans h
  | edit _ | on _ _ | drop _ => exact h

/-- The listeners of a store are those of which a registration still holds. -/
theorem run_listeners (s : Session) (hs : s.store.listeners = []) (calls : List Call) :
    (calls.foldl step s).store.listeners = Call.registered calls := by
  induction calls using List.reverseRecOn with
  | nil => exact hs
  | append_singleton calls c ih =>
    rw [List.foldl_concat, Call.registered, Call.registrations_concat]
    exact step_listeners ih c

end Session

/-! ## Announcements -/

namespace Store

theorem mem_announce {listeners keys : List String} {listener key : String} :
    (⟨listener, key⟩ : Event) ∈ announce listeners keys ↔ listener ∈ listeners ∧ key ∈ keys := by
  simp [announce, and_comm]

/-- No listener hears of a key twice. -/
theorem nodup_announce {listeners keys : List String} (hl : listeners.Nodup) (hk : keys.Nodup) :
    (announce listeners keys).Nodup := by
  have hpairs : announce listeners keys
      = (keys ×ˢ listeners).map fun pair => (⟨pair.2, pair.1⟩ : Event) := by
    simp [announce, SProd.sprod, List.product, List.map_flatMap, Function.comp_def]
  rw [hpairs]
  refine (hk.product hl).map fun p q h => ?_
  obtain ⟨hlistener, hkey⟩ := Event.mk.inj h
  exact Prod.ext hkey hlistener

/-- The keys that publishing an editor announces. -/
def announced (e : Entries) (editor : Editor) : List String :=
  Text.Sorted.ofList (replay e editor).2

theorem publish_snd (s : Store) (editor : Editor) :
    (s.publish editor).2 = announce s.listeners (announced s.entries editor) := rfl

end Store

namespace Edits

/-- What the keys have to be that a batch announces: all those that have other values after it,
but none that it is not about. -/
structure Announces (batch : Edits) (before after : Contents) (keys : List String) : Prop where
  sorted : keys.Pairwise (· < ·)
  complete : ∀ key, after key ≠ before key → key ∈ keys
  concerned : ∀ key ∈ keys, batch.Concerns before key

theorem announces_announced (batch : Edits) (e : Entries) :
    batch.Announces e.get? (Store.replay e (Editor.ofBatch batch)).1.get?
      (Store.announced e (Editor.ofBatch batch)) where
  sorted := Text.Sorted.pairwise_ofList _
  complete _ h := Text.Sorted.mem_ofList.2 (mem_touched_of_ne h)
  concerned _ h := mem_touched_cases (Text.Sorted.mem_ofList.1 h)

end Edits

/-- **Announcements miss nothing.** A store holds anything, and anything is called on it and its
editors before a batch is published. Then the keys that are announced are as they have to be, and
the listeners that are registered at that moment hear of each of them once: key by key, and for a
key in the order in which they were registered. -/
theorem publish_announces (entries : Entries) (calls : List Call) (batch : Edits) :
    let s := (calls.foldl Session.step { store := { entries } }).store
    let published := s.publish (Editor.ofBatch batch)
    ∃ keys : List String,
      batch.Announces s.get? published.1.get? keys ∧
      published.2 = (keys.flatMap fun key =>
        (Call.registered calls).map fun listener => ⟨listener, key⟩) ∧
      (∀ listener key, published.2.count ⟨listener, key⟩ =
        if listener ∈ Call.registered calls ∧ key ∈ keys then 1 else 0) ∧
      ∀ listener, listener ∈ Call.registered calls ↔
        ∃ earlier later, calls = earlier ++ .register listener :: later ∧
          .unregister listener ∉ later := by
  intro s published
  have hlisteners : s.listeners = Call.registered calls := Session.run_listeners _ rfl calls
  have hnodup : (Call.registered calls).Nodup := eraseDups_nodup _
  have hkeys := batch.announces_announced s.entries
  have hevents : published.2 = Store.announce (Call.registered calls)
      (Store.announced s.entries (Editor.ofBatch batch)) := by
    rw [← hlisteners]
    rfl
  refine ⟨_, hkeys, hevents, fun listener key => ?_, fun listener => ?_⟩
  · rw [hevents, (Store.nodup_announce hnodup (hkeys.sorted.imp ne_of_lt)).count]
    simp only [Store.mem_announce]
  · rw [Call.registered, List.mem_eraseDups, Call.mem_registrations_iff]

/-- The clock registers twice, the lamp leaves and comes back. Of the two puts the second says
nothing new. -/
example :
    (((([.register "lamp", .register "clock", .register "clock", .unregister "lamp",
        .register "lamp"] : List Call).foldl Session.step
          { store := { entries := [("station", .string "fm"), ("volume", .int 3)] } }).store).publish
      (Editor.ofBatch [.put "theme" (.bool true), .put "volume" (.int 3), .remove "station"])).2
      = [⟨"clock", "station"⟩, ⟨"lamp", "station"⟩, ⟨"clock", "theme"⟩, ⟨"lamp", "theme"⟩] := by
  decide +kernel

/-! ## Values on the way -/

/-- What a change decides for a key, if it is about that key. -/
def Change.decides? (key : String) (c : Change) : Option (Option StoredValue) :=
  if key = c.key then some c.written else none

theorem EditCall.decides?_eq (key : String) (c : EditCall) :
    c.decides? key = c.change?.bind (Change.decides? key) := by
  cases c <;> rfl

namespace Store

variable {e : Entries} {key : String}

/-- Where no float is written, nothing but the value itself is taken for the value. -/
theorem change_mem_iff {c : Change} (hfloat : ∀ x, c.written ≠ some (.float x)) :
    c.key ∈ (change e c).2 ↔ c.written ≠ e.get? c.key := by
  have hc := changed e c
  generalize change e c = r at hc
  cases hc with
  | @kept key value old hold hsame =>
    obtain rfl : old = value := by
      rcases StoredValue.same_cases hsame with heq | ⟨x, y, -, rfl, -⟩
      · exact heq
      · exact absurd rfl (hfloat y)
    exact iff_of_false List.not_mem_nil (not_not_intro hold.symm)
  | @put key value hnew =>
    refine iff_of_true (List.mem_singleton.2 rfl) fun hold => ?_
    have hself : value.same value = true := by
      cases value with
      | float x => exact absurd rfl (hfloat x)
      | bool _ | int _ | long _ | string _ | set _ => simp [StoredValue.same]
    exact Bool.false_ne_true ((hnew value hold.symm).symm.trans hself)
  | @removed key hthere =>
    refine iff_of_true (List.mem_singleton.2 rfl) fun hnone => ?_
    rw [show e.get? key = none from hnone.symm] at hthere
    cases hthere
  | @absent key hnone => exact iff_of_false List.not_mem_nil (not_not_intro hnone.symm)

/-- Where no float is written, what a change wants is there afterwards. -/
theorem change_self_eq {c : Change} (hfloat : ∀ x, c.written ≠ some (.float x)) :
    (change e c).1.get? c.key = c.written := by
  have h := change_self e c
  generalize (change e c).1.get? c.key = stored, c.written = w at h hfloat
  cases h with
  | none => rfl
  | some hvw =>
    rcases hvw.cases with rfl | ⟨x, y, -, rfl, -⟩
    · rfl
    · exact absurd rfl (hfloat y)

/-- What the changes of a key decide, one after the other. -/
def writes (key : String) (cs : List Change) : List (Option StoredValue) :=
  cs.filterMap (Change.decides? key)

theorem writes_cons_self (c : Change) (cs : List Change) :
    writes c.key (c :: cs) = c.written :: writes c.key cs :=
  List.filterMap_cons_some (if_pos rfl)

theorem writes_cons_other {c : Change} (h : key ≠ c.key) (cs : List Change) :
    writes key (c :: cs) = writes key cs :=
  List.filterMap_cons_none (if_neg h)

/-- Changes touch a key where one of them wants another value there than was there at first. -/
theorem changeAll_mem_iff {cs : List Change} (hfloat : ∀ x, some (.float x) ∉ writes key cs) :
    key ∈ (changeAll e cs).2 ↔ ∃ v ∈ writes key cs, v ≠ e.get? key := by
  induction cs generalizing e with
  | nil => simp [changeAll, writes]
  | cons c cs ih =>
    show key ∈ (change e c).2 ++ (changeAll (change e c).1 cs).2 ↔ _
    rw [List.mem_append]
    by_cases hkey : key = c.key
    · subst hkey
      rw [writes_cons_self] at hfloat ⊢
      have hwritten : ∀ x, c.written ≠ some (.float x) :=
        fun x h => hfloat x (h ▸ List.mem_cons_self)
      rw [ih fun x h => hfloat x (List.mem_cons_of_mem _ h), change_mem_iff hwritten,
        change_self_eq hwritten, List.exists_mem_cons_iff]
      -- a later write that differs from this one differs from the first value, or this one does
      by_cases heq : c.written = e.get? c.key
      · rw [heq]
      · exact iff_of_true (.inl heq) (.inl heq)
    · rw [writes_cons_other hkey] at hfloat ⊢
      rw [ih hfloat, change_other e c hkey, or_iff_right fun h => hkey (key_of_mem_change h)]

/-- The last of the changes of a key decides what is there. -/
theorem changeAll_last {cs : List Change} (hfloat : ∀ x, some (.float x) ∉ writes key cs) :
    (e.get? key :: writes key cs).getLast? = some ((changeAll e cs).1.get? key) := by
  induction cs generalizing e with
  | nil => rfl
  | cons c cs ih =>
    show _ = some ((changeAll (change e c).1 cs).1.get? key)
    by_cases hkey : key = c.key
    · subst hkey
      rw [writes_cons_self] at hfloat ⊢
      have hwritten : ∀ x, c.written ≠ some (.float x) :=
        fun x h => hfloat x (h ▸ List.mem_cons_self)
      rw [← ih fun x h => hfloat x (List.mem_cons_of_mem _ h), change_self_eq hwritten,
        List.getLast?_cons_cons]
    · rw [writes_cons_other hkey] at hfloat ⊢
      rw [← ih hfloat, change_other e c hkey]

end Store

namespace Edits

/-- The values that a key has, one after the other, while a batch is published: what a clear leaves
of the value before, and then what each put and remove of the key decides. -/
def course (batch : Edits) (before : Contents) (key : String) : List (Option StoredValue) :=
  (if .clear ∈ batch then none else before key) :: batch.filterMap (EditCall.decides? key)

theorem writes_changes (batch : Edits) (key : String) :
    Store.writes key (Editor.ofBatch batch).changes
      = batch.filterMap (EditCall.decides? key) := by
  rw [Store.writes, Editor.ofBatch_changes, List.filterMap_filterMap]
  exact List.filterMap_congr fun c _ => (EditCall.decides?_eq key c).symm

/-- An editor starts with what its clear leaves. -/
theorem start_eq (batch : Edits) (e : Entries) (key : String) :
    Entries.get? (if (Editor.ofBatch batch).clears then [] else e) key
      = if .clear ∈ batch then none else e.get? key := by
  by_cases hclear : .clear ∈ batch
  · rw [if_pos hclear, if_pos ((Editor.ofBatch_clears batch).2 hclear)]
    rfl
  · rw [if_neg hclear, if_neg (mt (Editor.ofBatch_clears batch).1 hclear)]

variable {batch : Edits} {e : Entries} {key : String}

/-- The last value of the course is there afterwards. -/
theorem course_last (hfloat : ∀ x, some (.float x) ∉ batch.course e.get? key) :
    (batch.course e.get? key).getLast?
      = some ((Store.replay e (Editor.ofBatch batch)).1.get? key) := by
  rw [Store.replay_fst, ← Store.changeAll_last, start_eq, writes_changes]
  · rfl
  · intro x hx
    rw [writes_changes] at hx
    exact hfloat x (List.mem_cons_of_mem _ hx)

/-- A key is touched where it has another value at some moment. -/
theorem mem_touched_iff (hfloat : ∀ x, some (.float x) ∉ batch.course e.get? key) :
    key ∈ (Store.replay e (Editor.ofBatch batch)).2 ↔
      ∃ v ∈ batch.course e.get? key, v ≠ e.get? key := by
  rw [Store.mem_replay, Store.changeAll_mem_iff, start_eq, writes_changes, course,
    List.exists_mem_cons_iff, Editor.ofBatch_clears]
  · by_cases hclear : .clear ∈ batch
    · simp only [if_pos hclear]
      -- a clear drops what was there, and where nothing was there it does nothing
      cases e.get? key with
      | none => simp
      | some old => exact iff_of_true (.inl ⟨hclear, rfl⟩) (.inl (Option.some_ne_none old).symm)
    · simp only [if_neg hclear]
      simp [hclear]
  · intro x hx
    rw [writes_changes] at hx
    exact hfloat x (List.mem_cons_of_mem _ hx)

end Edits

/-- **What is announced.** A listener hears of a key exactly where the key has another value than
before at some moment of the publication, after its clear or after one of its changes, be it the
last moment or not. So a key is announced that is as before exactly where it had another value on
the way. -/
theorem publish_event_iff {s : Store} {batch : Edits} {key : String}
    (hfloat : ∀ x, some (.float x) ∉ batch.course s.get? key) (listener : String) :
    let published := s.publish (Editor.ofBatch batch)
    let course := batch.course s.get? key
    (⟨listener, key⟩ ∈ published.2 ↔
        listener ∈ s.listeners ∧ ∃ v ∈ course, v ≠ s.get? key) ∧
      course.getLast? = some (published.1.get? key) ∧
      (⟨listener, key⟩ ∈ published.2 ∧ published.1.get? key = s.get? key ↔
        listener ∈ s.listeners ∧ course.getLast? = some (s.get? key) ∧
          ∃ v ∈ course, v ≠ s.get? key) := by
  intro published course
  have hevent : ⟨listener, key⟩ ∈ published.2 ↔
      listener ∈ s.listeners ∧ ∃ v ∈ course, v ≠ s.get? key := by
    rw [Store.publish_snd, Store.mem_announce, Store.announced, Text.Sorted.mem_ofList,
      Edits.mem_touched_iff hfloat]
    rfl
  have hlast : course.getLast? = some (published.1.get? key) := Edits.course_last hfloat
  refine ⟨hevent, hlast, ?_⟩
  rw [hevent, hlast, Option.some_inj]
  exact and_right_comm.trans and_assoc

/-- The volume is cleared and put again, the theme is put to another value and back, and a station
is put and removed again. Listeners hear of all three, and all three are as before. -/
theorem publish_event_iff_restored :
    let s : Store :=
      { entries := [("theme", .bool true), ("volume", .int 3)], listeners := ["lamp"] }
    let again (batch : Edits) (key : String) : Prop :=
      (∀ x, some (.float x) ∉ batch.course s.get? key) ∧
        ⟨"lamp", key⟩ ∈ (s.publish (Editor.ofBatch batch)).2 ∧
        (s.publish (Editor.ofBatch batch)).1.get? key = s.get? key
    again [.clear, .put "volume" (.int 3)] "volume" ∧
      again [.put "theme" (.bool false), .put "theme" (.bool true)] "theme" ∧
      again [.put "station" (.string "fm"), .remove "station"] "station" := by
  intro s again
  have hears {batch : Edits} {key : String}
      (hfloat : ∀ x, some (.float x) ∉ batch.course s.get? key)
      (hcourse : "lamp" ∈ s.listeners ∧
        (batch.course s.get? key).getLast? = some (s.get? key) ∧
          ∃ v ∈ batch.course s.get? key, v ≠ s.get? key) : again batch key :=
    ⟨hfloat, (publish_event_iff hfloat "lamp").2.2.2 hcourse⟩
  refine ⟨hears (fun x => ?_) (by decide), hears (fun x => ?_) (by decide),
    hears (fun x => ?_) (by decide)⟩
  · show some (StoredValue.float x) ∉ [none, some (StoredValue.int 3)]
    simp
  · show some (StoredValue.float x) ∉
      [some (StoredValue.bool true), some (StoredValue.bool false), some (StoredValue.bool true)]
    simp
  · show some (StoredValue.float x) ∉ [none, some (StoredValue.string "fm"), none]
    simp

end TypedSettings
