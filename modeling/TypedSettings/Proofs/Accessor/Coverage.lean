import Mathlib.Data.List.Induction
import TypedSettings.Proofs.Accessor.Registration
import TypedSettings.Proofs.Lists
import TypedSettings.Unit.Actions

/-!
The keys of a key space, and what they are accounted for by. Accessors are offered one after the
other, and one is registered when no earlier one has its role and key. A key then has one getter at
most and one putter at most, and what units do with it follows: it is stored when both are there
with one type, and it is worth one remark otherwise.

* `holds_ofOffers`: a key space has exactly the registered accessors, role by role.
* `definedKeys_nodup`, `mem_definedKeys`: the keys are those of the registered accessors, each once.
* `accounts_perm`: the stored pairs and the remarks have exactly the keys, each once.
-/

namespace TypedSettings

namespace KeySpace

/-! ## Offers -/

/-- Offers an accessor. Where its role has its key already, nothing changes. -/
def offer (k : KeySpace) (s : AccessorSpec) : KeySpace :=
  match k.register s with
  | .ok k' => k'
  | .error _ => k

/-- The key space of accessors that were offered in order. -/
def ofOffers (offers : List AccessorSpec) : KeySpace := offers.foldl offer {}

/-- Adds an accessor to those of which none has its role and key. -/
def addFirst (specs : List AccessorSpec) (s : AccessorSpec) : List AccessorSpec :=
  if specs.any fun e => e.role == s.role && e.key == s.key then specs else specs ++ [s]

/-- The accessors that are registered of those that were offered: of a role and a key, the first. -/
def registered (offers : List AccessorSpec) : List AccessorSpec := offers.foldl addFirst []

/-- No two accessors have one role and one key. -/
def Apart (specs : List AccessorSpec) : Prop :=
  specs.Pairwise fun e s => ¬ (e.role = s.role ∧ e.key = s.key)

variable {k : KeySpace} {specs offers : List AccessorSpec} {s : AccessorSpec}

theorem addFirst_cases (specs : List AccessorSpec) (s : AccessorSpec) :
    ((∃ e ∈ specs, e.role = s.role ∧ e.key = s.key) ∧ addFirst specs s = specs) ∨
    ((∀ e ∈ specs, ¬ (e.role = s.role ∧ e.key = s.key)) ∧ addFirst specs s = specs ++ [s]) := by
  unfold addFirst
  split
  · next h =>
    obtain ⟨e, he, heq⟩ := List.any_eq_true.1 h
    exact .inl ⟨⟨e, he, by simpa using heq⟩, rfl⟩
  · next h =>
    refine .inr ⟨?_, rfl⟩
    rintro e he ⟨hrole, hkey⟩
    exact h (List.any_eq_true.2 ⟨e, he, by simp [hrole, hkey]⟩)

theorem Holds.offer (h : k.Holds specs) (s : AccessorSpec) :
    (k.offer s).Holds (addFirst specs s) := by
  unfold KeySpace.offer register
  cases hf : find? (k.ofRole s.role) s.key with
  | some e =>
    obtain ⟨he, hrole, hkey⟩ := h.of_find?_eq_some hf
    rcases addFirst_cases specs s with ⟨-, heq⟩ | ⟨hnone, -⟩
    · rw [heq]
      exact h
    · exact absurd ⟨hrole, hkey⟩ (hnone e he)
  | none =>
    rcases addFirst_cases specs s with ⟨⟨e, he, hclash⟩, -⟩ | ⟨-, heq⟩
    · exact absurd hclash (h.of_find?_eq_none hf e he)
    · rw [heq]
      exact h.push s

theorem ofOffers_append (offers : List AccessorSpec) (s : AccessorSpec) :
    ofOffers (offers ++ [s]) = (ofOffers offers).offer s := by
  rw [ofOffers, List.foldl_append]
  rfl

theorem registered_append (offers : List AccessorSpec) (s : AccessorSpec) :
    registered (offers ++ [s]) = addFirst (registered offers) s := by
  rw [registered, List.foldl_append]
  rfl

/-- A key space has, role by role, the accessors that were registered, in that order. The induction
is on the last offer. -/
theorem holds_ofOffers (offers : List AccessorSpec) :
    (ofOffers offers).Holds (registered offers) := by
  induction offers using List.reverseRecOn with
  | nil => exact holds_empty
  | append_singleton offers s ih =>
    rw [ofOffers_append, registered_append]
    exact ih.offer s

theorem Apart.addFirst (h : Apart specs) (s : AccessorSpec) : Apart (addFirst specs s) := by
  rcases addFirst_cases specs s with ⟨-, heq⟩ | ⟨hnone, heq⟩
  · rw [heq]
    exact h
  · rw [heq, Apart, List.pairwise_append]
    refine ⟨h, List.pairwise_singleton _ _, ?_⟩
    intro e he e' he'
    rw [List.mem_singleton] at he'
    rw [he']
    exact hnone e he

theorem apart_registered (offers : List AccessorSpec) : Apart (registered offers) := by
  induction offers using List.reverseRecOn with
  | nil => exact List.Pairwise.nil
  | append_singleton offers s ih =>
    rw [registered_append]
    exact ih.addFirst s

/-- A key is registered exactly when it is offered. -/
theorem exists_registered_iff (offers : List AccessorSpec) (key : String) :
    (∃ s ∈ registered offers, s.key = key) ↔ ∃ s ∈ offers, s.key = key := by
  induction offers using List.reverseRecOn with
  | nil => simp [registered]
  | append_singleton offers s ih =>
    have hsplit :
        (∃ e ∈ offers ++ [s], e.key = key) ↔ (∃ e ∈ offers, e.key = key) ∨ s.key = key := by
      simp [or_and_right, exists_or]
    rw [registered_append, hsplit, ← ih]
    rcases addFirst_cases (registered offers) s with ⟨⟨e, he, -, hkey⟩, heq⟩ | ⟨-, heq⟩
    · rw [heq, iff_self_or]
      rintro rfl
      exact ⟨e, he, hkey⟩
    · rw [heq]
      simp [or_and_right, exists_or]

/-! ## Keys -/

theorem Holds.mem_ofRole (h : k.Holds specs) (role : Role) :
    s ∈ k.ofRole role ↔ s ∈ specs ∧ s.role = role := by
  rw [h role, List.mem_filter, beq_iff_eq]

theorem Holds.keys_nodup (h : k.Holds specs) (hapart : Apart specs) (role : Role) :
    ((k.ofRole role).map AccessorSpec.key).Nodup := by
  rw [h role, List.Nodup, List.pairwise_map, List.pairwise_filter]
  refine hapart.imp fun {e s} hclash he hs hkey => hclash ⟨?_, hkey⟩
  rw [beq_iff_eq.1 he, beq_iff_eq.1 hs]

theorem Holds.contains_iff (h : k.Holds specs) (role : Role) (key : String) :
    contains (k.ofRole role) key = true ↔ ∃ s ∈ specs, s.role = role ∧ s.key = key := by
  rw [contains, find?, List.find?_isSome]
  constructor
  · rintro ⟨s, hs, hkey⟩
    obtain ⟨hmem, hrole⟩ := (h.mem_ofRole role).1 hs
    exact ⟨s, hmem, hrole, beq_iff_eq.1 hkey⟩
  · rintro ⟨s, hs, hrole, hkey⟩
    exact ⟨s, (h.mem_ofRole role).2 ⟨hs, hrole⟩, beq_iff_eq.2 hkey⟩

theorem mem_definedKeys (h : k.Holds specs) {key : String} :
    key ∈ k.definedKeys ↔ ∃ s ∈ specs, s.key = key := by
  rw [definedKeys, List.mem_append, List.mem_map, List.mem_map]
  constructor
  · rintro (⟨s, hs, hkey⟩ | ⟨s, hs, hkey⟩)
    · exact ⟨s, ((h.mem_ofRole .getter).1 hs).1, hkey⟩
    · exact ⟨s, ((h.mem_ofRole .putter).1 (List.mem_filter.1 hs).1).1, hkey⟩
  · rintro ⟨s, hs, rfl⟩
    cases hrole : s.role with
    | getter => exact .inl ⟨s, (h.mem_ofRole .getter).2 ⟨hs, hrole⟩, rfl⟩
    | putter =>
      cases hg : contains (k.ofRole .getter) s.key with
      | true =>
        obtain ⟨g, hg, hgrole, hgkey⟩ := (h.contains_iff _ _).1 hg
        exact .inl ⟨g, (h.mem_ofRole .getter).2 ⟨hg, hgrole⟩, hgkey⟩
      | false =>
        refine .inr ⟨s, List.mem_filter.2 ⟨(h.mem_ofRole .putter).2 ⟨hs, hrole⟩, ?_⟩, rfl⟩
        rw [show contains k.getters s.key = false from hg]
        rfl

theorem definedKeys_nodup (h : k.Holds specs) (hapart : Apart specs) : k.definedKeys.Nodup := by
  have hgetters := h.keys_nodup hapart .getter
  have hputters := h.keys_nodup hapart .putter
  refine hgetters.append (hputters.sublist (List.filter_sublist.map _)) ?_
  intro key hkey honly
  obtain ⟨g, hg, hgkey⟩ := List.mem_map.1 hkey
  obtain ⟨p, hp, hpkey⟩ := List.mem_map.1 honly
  obtain ⟨hgmem, hgrole⟩ := (h.mem_ofRole .getter).1 hg
  have hknown : contains k.getters p.key = true :=
    (h.contains_iff .getter p.key).2 ⟨g, hgmem, hgrole, hgkey.trans hpkey.symm⟩
  simp [hknown] at hp

/-! ## Accounts -/

/-- A getter and a putter of one key. -/
def IsPair (specs : List AccessorSpec) (g p : AccessorSpec) : Prop :=
  g ∈ specs ∧ p ∈ specs ∧ g.role = .getter ∧ p.role = .putter ∧ g.key = p.key

theorem Holds.isPair (h : k.Holds specs) {g p : AccessorSpec} (hmem : (g, p) ∈ k.pairs) :
    IsPair specs g p := by
  obtain ⟨g', hg, heq⟩ := List.mem_filterMap.1 hmem
  obtain ⟨p', hp, heq⟩ := Option.map_eq_some_iff.1 heq
  cases heq
  have hp : find? (k.ofRole .putter) g.key = some p := hp
  obtain ⟨hpmem, hprole, hpkey⟩ := h.of_find?_eq_some hp
  obtain ⟨hgmem, hgrole⟩ := (h.mem_ofRole .getter).1 hg
  exact ⟨hgmem, hpmem, hgrole, hprole, hpkey.symm⟩

/-- The getters of pairs are those of which the key has a putter. -/
theorem pairs_map_fst (k : KeySpace) :
    k.pairs.map Prod.fst = k.getters.filter fun g => contains k.putters g.key := by
  unfold pairs
  induction k.getters with
  | nil => rfl
  | cons g getters ih =>
    rw [List.filterMap_cons, List.filter_cons, contains]
    cases find? k.putters g.key with
    | none => exact ih
    | some p => exact congrArg (g :: ·) ih

end KeySpace

/-- The key that a remark is about. -/
def Warning.key : Warning → String
  | keyAsymmetry key _ _ => key
  | typeMismatch key _ _ _ => key

/-- A remark that the accessors give rise to: a key without putter, a key without getter, or a key
that is read and written as different types. It is attributed to the accessor it is about. -/
inductive Warning.Concerns (specs : List AccessorSpec) : Warning → Prop
  | noPutter {g : AccessorSpec} : g ∈ specs → g.role = .getter →
      (∀ p ∈ specs, ¬ (p.role = .putter ∧ p.key = g.key)) →
      Concerns specs (.keyAsymmetry g.key .putter g.attribution)
  | noGetter {p : AccessorSpec} : p ∈ specs → p.role = .putter →
      (∀ g ∈ specs, ¬ (g.role = .getter ∧ g.key = p.key)) →
      Concerns specs (.keyAsymmetry p.key .getter p.attribution)
  | types {g p : AccessorSpec} : KeySpace.IsPair specs g p → g.type ≠ p.type →
      Concerns specs (.typeMismatch g.key g.type p.type p.attribution)

namespace KeySpace

variable {k : KeySpace} {specs : List AccessorSpec}

/-- An accessor without a partner of its key, in a role. -/
theorem Holds.asymmetry (h : k.Holds specs) {role : Role} {s : AccessorSpec}
    (hs : s ∈ (k.ofRole role).filter fun s => !contains (k.ofRole role.opposite) s.key) :
    s ∈ specs ∧ s.role = role ∧ ∀ e ∈ specs, ¬ (e.role = role.opposite ∧ e.key = s.key) := by
  obtain ⟨hmem, hnone⟩ := List.mem_filter.1 hs
  obtain ⟨hmem, hrole⟩ := (h.mem_ofRole role).1 hmem
  refine ⟨hmem, hrole, fun e he hclash => ?_⟩
  rw [(h.contains_iff _ _).2 ⟨e, he, hclash⟩] at hnone
  cases hnone

theorem Holds.warning (h : k.Holds specs) {wn : Warning} (hwn : wn ∈ k.warnings) :
    wn.Concerns specs := by
  rcases List.mem_append.1 hwn with hwn | hwn
  · rcases List.mem_append.1 hwn with hwn | hwn
    · obtain ⟨g, hg, rfl⟩ := List.mem_map.1 hwn
      obtain ⟨hmem, hrole, hnone⟩ := h.asymmetry hg
      exact .noPutter hmem hrole hnone
    · obtain ⟨p, hp, rfl⟩ := List.mem_map.1 hwn
      obtain ⟨hmem, hrole, hnone⟩ := h.asymmetry hp
      exact .noGetter hmem hrole hnone
  · obtain ⟨⟨g, p⟩, hpair, rfl⟩ := List.mem_map.1 hwn
    obtain ⟨hpair, htypes⟩ := List.mem_filter.1 hpair
    exact .types (h.isPair hpair) (bne_iff_ne.1 htypes)

/-- The keys of the stored pairs and of the remarks are the keys of the key space, each once: what
is a pair is stored or remarked on, by its types, and so is what is none, by its role. -/
theorem accounts_perm (k : KeySpace) :
    ((Emit.storedPairs k).map (fun p => p.1.key) ++ k.warnings.map Warning.key).Perm
      k.definedKeys := by
  rw [List.perm_iff_count]
  intro key
  have htypes := ((List.filter_append_perm (fun p => p.1.type == p.2.type) k.pairs).map
    fun p => p.1.key).count_eq key
  have hroles := ((List.filter_append_perm (fun g => contains k.putters g.key) k.getters).map
    AccessorSpec.key).count_eq key
  have hpairs : k.pairs.map (fun p => p.1.key)
      = (k.getters.filter fun g => contains k.putters g.key).map AccessorSpec.key := by
    rw [← pairs_map_fst, List.map_map]
    rfl
  have hgetters : (k.asymmetries .getter).map Warning.key
      = (k.getters.filter fun g => !contains k.putters g.key).map AccessorSpec.key := by
    rw [asymmetries, List.map_map]
    rfl
  have hputters : (k.asymmetries .putter).map Warning.key
      = (k.putters.filter fun p => !contains k.getters p.key).map AccessorSpec.key := by
    rw [asymmetries, List.map_map]
    rfl
  have hmismatches : k.mismatches.map Warning.key
      = (k.pairs.filter fun p => !(p.1.type == p.2.type)).map fun p => p.1.key := by
    rw [mismatches, List.map_map]
    rfl
  rw [List.map_append, List.count_append, hpairs] at htypes
  rw [List.map_append, List.count_append] at hroles
  rw [warnings, definedKeys, Emit.storedPairs]
  simp only [List.map_append, List.count_append, hgetters, hputters, hmismatches]
  omega

end KeySpace

end TypedSettings
