import TypedSettings.Proofs.Accessor.Coverage
import TypedSettings.Proofs.Walk.Account

/-!
The getter and the putter of a key. A walk registers one accessor at most for a role and a key, so
the pairs of its key space and the remarks on it can be told from its accessors alone.

* `KeySpace.Holds.mem_pairs_iff`: a getter and a putter of one key are a pair.
* `KeySpace.Holds.mem_warnings_iff`: the remarks are those that the accessors give rise to.
* `KeySpace.Holds.mem_warnings_of_isPair`: the only remark on the key of a pair is on its types.
* `Walk.holds_specs`, `Walk.apart_specs`: the key space of a walk has the walk's accessors, and no
  two of them have one role and one key.
-/

namespace TypedSettings

namespace KeySpace

variable {k : KeySpace} {specs : List AccessorSpec} {g p s e : AccessorSpec}

theorem Apart.eq (h : Apart specs) (he : e ∈ specs) (hs : s ∈ specs) (hrole : e.role = s.role)
    (hkey : e.key = s.key) : e = s := by
  have hnodup : (specs.map fun s => (s.role, s.key)).Nodup := by
    rw [List.Nodup, List.pairwise_map]
    exact h.imp fun hclash heq => hclash (Prod.mk.inj heq)
  exact List.inj_on_of_nodup_map hnodup he hs (Prod.ext hrole hkey)

/-- A key has one pair at most. -/
theorem IsPair.eq {g' p' : AccessorSpec} (h : IsPair specs g p) (hapart : Apart specs)
    (h' : IsPair specs g' p') (hkey : g.key = g'.key) : g = g' ∧ p = p' := by
  obtain ⟨hg, hp, hgrole, hprole, hgp⟩ := h
  obtain ⟨hg', hp', hgrole', hprole', hgp'⟩ := h'
  have hputter : p.key = p'.key := hgp.symm.trans (hkey.trans hgp')
  exact ⟨hapart.eq hg hg' (hgrole.trans hgrole'.symm) hkey,
    hapart.eq hp hp' (hprole.trans hprole'.symm) hputter⟩

theorem Holds.find?_eq_some_iff (h : k.Holds specs) (hapart : Apart specs) (role : Role)
    (key : String) :
    find? (k.ofRole role) key = some s ↔ s ∈ specs ∧ s.role = role ∧ s.key = key := by
  rw [find?, find?_key_eq_some_iff (h.keys_nodup hapart role), h.mem_ofRole, and_assoc]

theorem Holds.mem_pairs_iff (h : k.Holds specs) (hapart : Apart specs) :
    (g, p) ∈ k.pairs ↔ IsPair specs g p := by
  constructor
  · exact h.isPair
  · rintro ⟨hg, hp, hgrole, hprole, hkey⟩
    have hgetter : g ∈ k.getters := (h.mem_ofRole .getter).2 ⟨hg, hgrole⟩
    have hputter : find? k.putters g.key = some p :=
      (h.find?_eq_some_iff hapart .putter g.key).2 ⟨hp, hprole, hkey.symm⟩
    refine List.mem_filterMap.2 ⟨g, hgetter, ?_⟩
    rw [hputter]
    rfl

theorem mem_storedPairs_iff :
    (g, p) ∈ Emit.storedPairs k ↔ (g, p) ∈ k.pairs ∧ g.type = p.type := by
  rw [Emit.storedPairs, List.mem_filter, beq_iff_eq]

/-- Of the key of a pair nothing is stored but the pair, and the pair exactly when its types are
one. -/
theorem Holds.mem_storedPairs_of_isPair (h : k.Holds specs) (hapart : Apart specs)
    (hpair : IsPair specs g p) {pair : AccessorSpec × AccessorSpec} :
    pair ∈ Emit.storedPairs k ∧ pair.1.key = g.key ↔ g.type = p.type ∧ pair = (g, p) := by
  constructor
  · obtain ⟨g', p'⟩ := pair
    rintro ⟨hmem, hgkey⟩
    obtain ⟨hmem, htypes⟩ := mem_storedPairs_iff.1 hmem
    obtain ⟨rfl, rfl⟩ := (h.isPair hmem).eq hapart hpair hgkey
    exact ⟨htypes, rfl⟩
  · rintro ⟨htypes, rfl⟩
    exact ⟨mem_storedPairs_iff.2 ⟨(h.mem_pairs_iff hapart).2 hpair, htypes⟩, rfl⟩

/-! ## Remarks -/

theorem Holds.mem_asymmetries (h : k.Holds specs) {role : Role} (hs : s ∈ specs)
    (hrole : s.role = role) (hnone : ∀ e ∈ specs, ¬ (e.role = role.opposite ∧ e.key = s.key)) :
    .keyAsymmetry s.key role.opposite s.attribution ∈ k.asymmetries role := by
  have hcontains : contains (k.ofRole role.opposite) s.key = false := by
    rw [Bool.eq_false_iff]
    intro hknown
    obtain ⟨e, he, hclash⟩ := (h.contains_iff _ _).1 hknown
    exact hnone e he hclash
  refine List.mem_map.2 ⟨s, List.mem_filter.2 ⟨(h.mem_ofRole role).2 ⟨hs, hrole⟩, ?_⟩, rfl⟩
  rw [hcontains]
  rfl

/-- The remarks on a key space are exactly those that its accessors give rise to. -/
theorem Holds.mem_warnings_iff (h : k.Holds specs) (hapart : Apart specs) {wn : Warning} :
    wn ∈ k.warnings ↔ wn.Concerns specs := by
  refine ⟨h.warning, fun hwn => ?_⟩
  rw [warnings, List.mem_append, List.mem_append]
  cases hwn with
  | noPutter hg hrole hnone => exact .inl (.inl (h.mem_asymmetries hg hrole hnone))
  | noGetter hp hrole hnone => exact .inl (.inr (h.mem_asymmetries hp hrole hnone))
  | types hpair htypes =>
    have hmem := (h.mem_pairs_iff hapart).2 hpair
    exact .inr (List.mem_map.2 ⟨_, List.mem_filter.2 ⟨hmem, bne_iff_ne.2 htypes⟩, rfl⟩)

/-- Of the key of a pair there is no remark but one on its types, and that one exactly when they
differ. -/
theorem Holds.mem_warnings_of_isPair (h : k.Holds specs) (hapart : Apart specs)
    (hpair : IsPair specs g p) {wn : Warning} :
    wn ∈ k.warnings ∧ wn.key = g.key ↔
      g.type ≠ p.type ∧ wn = .typeMismatch g.key g.type p.type p.attribution := by
  rw [h.mem_warnings_iff hapart]
  constructor
  · rintro ⟨hwn, hwkey⟩
    obtain ⟨hg, hp, hgrole, hprole, hkey⟩ := hpair
    cases hwn with
    | noPutter _ _ hnone => exact absurd ⟨hprole, hkey.symm.trans hwkey.symm⟩ (hnone p hp)
    | noGetter _ _ hnone => exact absurd ⟨hgrole, hwkey.symm⟩ (hnone g hg)
    | types hother htypes =>
      obtain ⟨rfl, rfl⟩ := hother.eq hapart ⟨hg, hp, hgrole, hprole, hkey⟩ hwkey
      exact ⟨htypes, rfl⟩
  · rintro ⟨htypes, rfl⟩
    exact ⟨.types hpair htypes, rfl⟩

/-- An accessor is remarked on for the other role exactly when nothing of that role has its key. -/
theorem Holds.asymmetry_mem_iff (h : k.Holds specs) (hapart : Apart specs) {role : Role}
    (hs : s ∈ specs) (hrole : s.role = role) :
    .keyAsymmetry s.key role.opposite s.attribution ∈ k.warnings ↔
      ∀ e ∈ specs, ¬ (e.role = role.opposite ∧ e.key = s.key) := by
  cases role with
  | getter =>
    refine ⟨?_, fun hnone => (h.mem_warnings_iff hapart).2 (.noPutter hs hrole hnone)⟩
    rintro hwn p hp ⟨hprole, hpkey⟩
    have hpair : IsPair specs s p := ⟨hs, hp, hrole, hprole, hpkey.symm⟩
    have hremark := ((h.mem_warnings_of_isPair hapart hpair).1 ⟨hwn, rfl⟩).2
    cases hremark
  | putter =>
    refine ⟨?_, fun hnone => (h.mem_warnings_iff hapart).2 (.noGetter hs hrole hnone)⟩
    rintro hwn g hg ⟨hgrole, hgkey⟩
    have hpair : IsPair specs g s := ⟨hg, hs, hgrole, hrole, hgkey⟩
    have hremark := ((h.mem_warnings_of_isPair hapart hpair).1 ⟨hwn, hgkey.symm⟩).2
    cases hremark

theorem Apart.concat (h : Apart specs) (hs : ∀ e ∈ specs, ¬ (e.role = s.role ∧ e.key = s.key)) :
    Apart (specs ++ [s]) := by
  rcases addFirst_cases specs s with ⟨⟨e, he, hclash⟩, -⟩ | ⟨-, heq⟩
  · exact absurd hclash (hs e he)
  · exact heq ▸ h.addFirst s

end KeySpace

namespace Walk

/-- One event keeps the accessors apart: a method that would be a second accessor of a role and a
key is refused. -/
theorem apart_record (w : World) (site : Attribution) {s : Walk} (h : s.KeysHold)
    (hapart : KeySpace.Apart s.outcome.specs) (e : Event) :
    KeySpace.Apart (record w site s e).outcome.specs := by
  cases e with
  | enter r => exact hapart
  | issue r i => exact hapart
  | dangling a => exact hapart
  | method r m =>
    rcases record_method w site h r m with ⟨p, -, hs, -⟩ | ⟨spec, -, hs, hj⟩
    · rw [hs]
      exact hapart
    · rw [hs]
      cases hj with
      | accepted _ hfree => exact hapart.concat hfree

theorem apart_foldl (w : World) (site : Attribution) {s : Walk} (h : s.KeysHold)
    (hapart : KeySpace.Apart s.outcome.specs) (events : List Event) :
    KeySpace.Apart (events.foldl (record w site) s).outcome.specs := by
  induction events generalizing s with
  | nil => exact hapart
  | cons e events ih => exact ih (h.record w site e) (apart_record w site h hapart e)

theorem holds_specs (w : World) (root : InterfaceDecl) :
    (ofRoot w root).outcome.keys.Holds (ofRoot w root).outcome.specs := by
  obtain ⟨order, events, results, -, haccount⟩ := exists_account w root
  rw [haccount.played]
  exact keys_hold w root events

theorem apart_specs (w : World) (root : InterfaceDecl) :
    KeySpace.Apart (ofRoot w root).outcome.specs := by
  obtain ⟨order, events, results, -, haccount⟩ := exists_account w root
  rw [haccount.played]
  exact apart_foldl w _ (s := {}) KeySpace.holds_empty .nil events

end Walk

end TypedSettings
