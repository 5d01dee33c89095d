import TypedSettings.Proofs.Unit.Running

/-!
What storing the defaults does. The action goes through its pairs in order, reads a value by the
getter and writes it by the putter. A pair changes nothing but its own key, and its getter reads the
value again. So it is enough to look at one pair: after its turn the pair is settled, the turns of
other pairs leave it so, and the turn of a settled pair does nothing.

* `StoredPair.turn_eq`: the turn of one pair.
* `storeAll_settled`: pairs that are settled.
* `storeAll_keeps_readings`: any pairs with keys of their own.
-/

namespace TypedSettings

namespace Emit

/-- A getter and a putter of one key and of one kind that a store holds directly, as they are
generated for a target, with the value of the getter's default. -/
structure StoredPair (t : Target) where
  kind : StoreKind
  getter : AccessorSpec
  putter : AccessorSpec
  getMethod : GeneratedMethod
  putMethod : GeneratedMethod
  default : StoredValue
  getter_role : getter.role = .getter
  putter_role : putter.role = .putter
  getter_kind : getter.kind = .primitive kind
  putter_kind : putter.kind = .primitive kind
  key_eq : putter.key = getter.key
  getMethod_eq : accessor getter t = .ok getMethod
  putMethod_eq : accessor putter t = .ok putMethod
  default_kind : default.kind = kind
  default_proper : default.Proper

namespace StoredPair

variable {t : Target} (p : StoredPair t) (host : Host)

def key : String := p.getter.key

/-- What the getter reads. -/
def read? (s : Store) : Option StoredValue := p.getMethod.reads? host s p.default

/-- The turn of a pair: the putter writes what the getter reads. -/
def turn (s : Store) : Option (Store × List Event) :=
  (p.read? host s).bind (p.putMethod.writes? host s)

/-- Whether the pair's value is kept as text. -/
def asText : Bool := keepsText t host p.kind

/-- What the getter reads, as a value. -/
def value (s : Store) : StoredValue := s.reading (p.asText host) p.key p.default

/-- The value is under the key, and the getter reads it. -/
structure Settled (s : Store) (v : StoredValue) : Prop where
  value_eq : p.value host s = v
  get?_eq : s.get? p.key = some (v.kept (p.asText host))

variable {s s' : Store}

theorem read?_eq (s : Store) : p.read? host s = some (p.value host s) :=
  getter_reads p.getter_role p.getter_kind p.getMethod_eq host s p.default_kind

theorem asText_kind (h : p.asText host = true) : p.default.kind = .stringSet :=
  p.default_kind.trans (kind_of_keepsText h)

theorem value_kind (s : Store) : (p.value host s).kind = p.kind :=
  (Store.reading_spec s p.key p.default_proper (p.asText_kind host)).1.trans p.default_kind

/-- The turn of a pair is one put of what is read. -/
theorem turn_eq (s : Store) :
    p.turn host s = some (s.putOne p.key ((p.value host s).kept (p.asText host))) := by
  rw [turn, read?_eq, Option.bind_some, putter_writes p.putter_role p.putter_kind p.putMethod_eq host
    s (p.value_kind host s), p.key_eq]
  rfl

/-- After its turn a pair is settled, with what was read before. -/
theorem settled_turn (s : Store) :
    p.Settled host (s.putOne p.key ((p.value host s).kept (p.asText host))).1 (p.value host s) := by
  obtain ⟨hkind, hproper, hold⟩ := Store.reading_spec s p.key p.default_proper (p.asText_kind host)
  have hget := Store.get?_putOne hold
  refine ⟨Store.reading_kept hget hkind fun htext => ?_, hget⟩
  exact ⟨hkind.trans (p.asText_kind host htext), hproper htext⟩

variable {p host}

/-- What is read depends on what is under the key alone. -/
theorem value_congr (h : s'.get? p.key = s.get? p.key) : p.value host s' = p.value host s :=
  Store.reading_congr h _ _

theorem Settled.congr {v : StoredValue} (h : p.Settled host s v)
    (hget : s'.get? p.key = s.get? p.key) : p.Settled host s' v :=
  ⟨(value_congr hget).trans h.value_eq, hget.trans h.get?_eq⟩

/-- The turn of a settled pair does nothing, unless its value is a float that is no number. -/
theorem Settled.turn {v : StoredValue} (h : p.Settled host s v)
    (hnumber : ∀ x, v = .float x → x.isNaN = false) : p.turn host s = some (s, []) := by
  have hsame : (v.kept (p.asText host)).same (v.kept (p.asText host)) = true :=
    StoredValue.same_self fun x hx => hnumber x (StoredValue.kept_eq_float hx)
  rw [turn_eq, h.value_eq, Store.putOne_eq_self h.get?_eq hsame]

end StoredPair

variable {t : Target} {host : Host}

/-- Stores what every getter reads, pair by pair, and gives what is heard. -/
def storeAll (host : Host) (s : Store) : List (StoredPair t) → Option (Store × List Event)
  | [] => some (s, [])
  | p :: rest =>
    (p.turn host s).bind fun one =>
      (storeAll host one.1 rest).map fun later => (later.1, one.2 ++ later.2)

/-- Pairs that are settled stay so, and nobody hears of them. -/
theorem storeAll_settled {s : Store} {pairs : List (StoredPair t)}
    (h : ∀ p ∈ pairs, ∃ v, p.Settled host s v ∧ ∀ x, v = .float x → x.isNaN = false) :
    storeAll host s pairs = some (s, []) := by
  induction pairs with
  | nil => rfl
  | cons p rest ih =>
    rw [List.forall_mem_cons] at h
    obtain ⟨⟨v, hsettled, hnumber⟩, hrest⟩ := h
    rw [storeAll, hsettled.turn hnumber, Option.bind_some, ih hrest]
    rfl

/-- The turns of pairs, one after the other: each is settled in the end with what its getter read at
first, and no other key is touched. -/
theorem storeAll_eq_some {pairs : List (StoredPair t)}
    (hkeys : (pairs.map StoredPair.key).Nodup) (s : Store) :
    ∃ once heard, storeAll host s pairs = some (once, heard) ∧ once.listeners = s.listeners ∧
      (∀ p ∈ pairs, p.Settled host once (p.value host s)) ∧
      ∀ key, key ∉ pairs.map StoredPair.key → once.get? key = s.get? key := by
  induction pairs generalizing s with
  | nil =>
    refine ⟨s, [], rfl, rfl, ?_, fun _ _ => rfl⟩
    intro p hp
    cases hp
  | cons p rest ih =>
    rw [List.map_cons, List.nodup_cons] at hkeys
    obtain ⟨hp, hrest⟩ := hkeys
    have hturn := p.turn_eq host s
    have hsettled := p.settled_turn host s
    have hother {key : String} (hkey : key ≠ p.key) :=
      Store.get?_putOne_other s ((p.value host s).kept (p.asText host)) hkey
    have hlisteners := Store.putOne_listeners s p.key ((p.value host s).kept (p.asText host))
    generalize s.putOne p.key _ = one at hturn hsettled hother hlisteners
    obtain ⟨once, heard, honce, hsame, hall, hframe⟩ := ih hrest one.1
    refine ⟨once, one.2 ++ heard, ?_, hsame.trans hlisteners, ?_, ?_⟩
    · rw [storeAll, hturn, Option.bind_some, honce]
      rfl
    · rw [List.forall_mem_cons]
      refine ⟨hsettled.congr (hframe _ hp), fun q hq => ?_⟩
      have hkey : q.key ≠ p.key := fun heq => hp (heq ▸ List.mem_map_of_mem hq)
      rw [← StoredPair.value_congr (hother hkey)]
      exact hall q hq
    · intro key hkey
      rw [List.map_cons, List.mem_cons, not_or] at hkey
      rw [hframe key hkey.2, hother hkey.1]

def volumeAccessor (role : Role) (method : String) : AccessorSpec :=
  { key := "volume", role, kind := .primitive .int, type := .named "i32"
    hasExplicitDefault := false, default := none, interface := "crate::Notes", method
    param := some "volume", returns := .unit, isFluent := false, location := none }

theorem volume_evaluated :
    (accessor (volumeAccessor .getter "volume") froyo).isOk = true ∧
    (accessor (volumeAccessor .putter "set_volume") froyo).isOk = true := by
  decide +kernel

def untidyStore : Store :=
  { entries := [("tags", .string "[\"rock\", \"jazz\", \"rock\"]"), ("theme", .string "dark"),
      ("volume", .bool true)]
    listeners := ["lamp"] }

end Emit

end TypedSettings
