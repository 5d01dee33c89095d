import TypedSettings.Accessor.KeySpace
import TypedSettings.Proofs.Lists

/-!
Registering accessors. A key space holds the accessors that were made so far, role by role
(`KeySpace.Holds`). `Judged` says what a method becomes after them: an accessor, or a problem of its
own, or a duplicate of the accessor that has its role and key.

* `KeySpace.Holds.classify`: classifying a method judges it, and keeps the key space in step.
* `Judged.isDuplicate_iff`: a method is a duplicate exactly when it would be an accessor and an
  earlier one has its role and key.
* `Judged.attribution`: what comes of a method is attributed to it.
-/

namespace TypedSettings

/-! ## Kinds of problems -/

namespace Problem

/-- A problem of an annotation. -/
def isOfAttribute : Problem → Bool
  | invalidAttribute .. => true
  | _ => false

/-- A problem of a method that becomes no accessor. -/
def isOfMethod : Problem → Bool
  | invalidAccessor .. | duplicateKey .. | unresolvedSerialization .. | invalidKey ..
  | invalidDefault .. => true
  | _ => false

def isDuplicate : Problem → Bool
  | duplicateKey .. => true
  | _ => false

end Problem

/-! ## Methods as accessors -/

/-- A getter takes nothing and gives something. -/
theorem MethodDecl.of_getter {m : MethodDecl} (h : m.role = .ok .getter) :
    m.params = [] ∧ m.returns ≠ .unit := by
  unfold role at h
  split at h
  · cases h
  · split at h
    · next hparams =>
      split at h
      · cases h
      · next hreturns => exact ⟨hparams, hreturns⟩
    · repeat' split at h
      all_goals cases h
    · cases h

/-- A putter takes one value, and gives nothing or `&Self`. -/
theorem MethodDecl.of_putter {m : MethodDecl} (h : m.role = .ok .putter) :
    ∃ p, m.params = [p] ∧ (m.returns = .unit ∨ m.returns = .selfReference) := by
  unfold role at h
  split at h
  · cases h
  · split at h
    · repeat' split at h
      all_goals cases h
    · next p hparams =>
      split at h
      · next hreturns => exact ⟨p, hparams, hreturns⟩
      · cases h
    · cases h

namespace AccessorSpec

variable {serializer : Option String} {interface : String} {m : MethodDecl}

theorem resolve_error {role : Role} {kind : ValueKind} {p : Problem}
    (h : Key.resolve interface m role kind = .error p) :
    p.isOfMethod = true ∧ p.isDuplicate = false ∧
      p.attribution? = some (.ofMethod interface m.name m.location) := by
  unfold Key.resolve at h
  dsimp only at h
  split at h
  · cases h
    exact ⟨rfl, rfl, rfl⟩
  · split at h
    · cases h
    · split at h
      · cases h
      · cases h
      · split at h
        · cases h
        · cases h
          exact ⟨rfl, rfl, rfl⟩

/-- A method becomes an accessor that belongs to it, or has a problem of its own. -/
theorem ofMethod_cases (serializer : Option String) (interface : String) (m : MethodDecl) :
    (∃ s, ofMethod serializer interface m = .ok s ∧
      s.interface = interface ∧ s.method = m.name ∧ s.location = m.location) ∨
    (∃ p, ofMethod serializer interface m = .error p ∧
      p.isOfMethod = true ∧ p.isDuplicate = false ∧
      p.attribution? = some (.ofMethod interface m.name m.location)) := by
  unfold ofMethod
  cases hrole : m.role with
  | error fault => exact Or.inr ⟨_, rfl, rfl, rfl, rfl⟩
  | ok role =>
    cases hkind : ValueKind.resolve? serializer (m.valueType role) with
    | none =>
      simp only [hkind, pure_bind]
      exact Or.inr ⟨_, rfl, rfl, rfl, rfl⟩
    | some kind =>
      cases hkey : Key.resolve interface m role kind with
      | error p =>
        simp only [hkind, hkey, pure_bind]
        exact Or.inr ⟨p, rfl, resolve_error hkey⟩
      | ok found =>
        simp only [hkind, hkey, pure_bind]
        exact Or.inl ⟨_, rfl, rfl, rfl, rfl⟩

theorem ofMethod_ok {s : AccessorSpec} (h : ofMethod serializer interface m = .ok s) :
    s.interface = interface ∧ s.method = m.name ∧ s.location = m.location := by
  rcases ofMethod_cases serializer interface m with ⟨s', hs, hown⟩ | ⟨p, hp, -⟩
  · rw [hs] at h
    cases h
    exact hown
  · rw [hp] at h
    cases h

/-- What an accessor takes from its method: the role and the type from the signature, the kind from
the type, and the key and the default from what the method says of them. -/
theorem ofMethod_fields {s : AccessorSpec} (h : ofMethod serializer interface m = .ok s) :
    m.role = .ok s.role ∧ s.type = m.valueType s.role ∧
      ValueKind.resolve? serializer s.type = some s.kind ∧
      ∃ found, Key.resolve interface m s.role s.kind = .ok found ∧ s.key = found.key ∧
        s.default = found.default ∧ s.hasExplicitDefault = found.isExplicit := by
  unfold ofMethod at h
  cases hrole : m.role with
  | error fault =>
    rw [hrole] at h
    cases h
  | ok role =>
    simp only [hrole, pure_bind] at h
    split at h
    · next kind hkind =>
      obtain ⟨found, hfound, h⟩ := bind_eq_ok.1 h
      cases h
      exact ⟨rfl, rfl, hkind, found, hfound, rfl, rfl, rfl⟩
    · cases h

/-- The parameter of an accessor and the result of a putter are those of its method. -/
theorem ofMethod_shape {s : AccessorSpec} (h : ofMethod serializer interface m = .ok s) :
    s.isFluent = (s.role == .putter && m.returns == .selfReference) ∧
      (s.role = .putter → s.param = m.params.head?.map Param.name) := by
  unfold ofMethod at h
  cases hrole : m.role with
  | error fault =>
    rw [hrole] at h
    cases h
  | ok role =>
    simp only [hrole, pure_bind] at h
    split at h
    · obtain ⟨found, -, h⟩ := bind_eq_ok.1 h
      cases h
      refine ⟨rfl, ?_⟩
      rintro rfl
      rfl
    · cases h

theorem ofMethod_error {p : Problem} (h : ofMethod serializer interface m = .error p) :
    p.isOfMethod = true ∧ p.isDuplicate = false ∧
      p.attribution? = some (.ofMethod interface m.name m.location) := by
  rcases ofMethod_cases serializer interface m with ⟨s, hs, -⟩ | ⟨p', hp, hown⟩
  · rw [hs] at h
    cases h
  · rw [hp] at h
    cases h
    exact hown

end AccessorSpec

/-! ## Key spaces and the accessors in them -/

namespace KeySpace

/-- The key space has, role by role, exactly the accessors of a list, in their order. -/
def Holds (k : KeySpace) (specs : List AccessorSpec) : Prop :=
  ∀ role, k.ofRole role = specs.filter fun s => s.role == role

theorem holds_empty : Holds {} [] := by
  intro role
  cases role <;> rfl

theorem ofRole_push (k : KeySpace) (s : AccessorSpec) (role : Role) :
    (k.push s).ofRole role = k.ofRole role ++ if s.role == role then [s] else [] := by
  unfold push
  cases hs : s.role <;> cases role <;> simp [ofRole]

theorem Holds.push {k : KeySpace} {specs : List AccessorSpec} (h : k.Holds specs)
    (s : AccessorSpec) : (k.push s).Holds (specs ++ [s]) := by
  intro role
  rw [ofRole_push, h role, List.filter_append]
  cases hs : s.role == role <;> simp [hs]

theorem Holds.of_find?_eq_some {k : KeySpace} {specs : List AccessorSpec} (h : k.Holds specs)
    {role : Role} {key : String} {e : AccessorSpec} (he : find? (k.ofRole role) key = some e) :
    e ∈ specs ∧ e.role = role ∧ e.key = key := by
  have hmem : e ∈ k.ofRole role := List.mem_of_find?_eq_some he
  rw [h role, List.mem_filter] at hmem
  exact ⟨hmem.1, by simpa using hmem.2, by simpa using List.find?_some he⟩

theorem Holds.of_find?_eq_none {k : KeySpace} {specs : List AccessorSpec} (h : k.Holds specs)
    {role : Role} {key : String} (hn : find? (k.ofRole role) key = none) :
    ∀ e ∈ specs, ¬ (e.role = role ∧ e.key = key) := by
  rintro e he ⟨hrole, hkey⟩
  have hmem : e ∈ k.ofRole role := by
    rw [h role, List.mem_filter]
    exact ⟨he, by simpa using hrole⟩
  exact List.find?_eq_none.1 hn e hmem (by simpa using hkey)

end KeySpace

/-! ## Judgements -/

/-- What a method becomes after the accessors `earlier`. -/
inductive Judged (serializer : Option String) (earlier : List AccessorSpec) (interface : String)
    (m : MethodDecl) : Except Problem AccessorSpec → Prop
  /-- it cannot be an accessor -/
  | refused {p : Problem} :
      AccessorSpec.ofMethod serializer interface m = .error p →
      Judged serializer earlier interface m (.error p)
  /-- it could be one, and an earlier one has its role and key -/
  | repeated {s e : AccessorSpec} :
      AccessorSpec.ofMethod serializer interface m = .ok s →
      e ∈ earlier → e.role = s.role → e.key = s.key →
      Judged serializer earlier interface m
        (.error (.duplicateKey s.key s.role e.method m.name
          (.ofMethod interface m.name m.location)))
  /-- it is one, and no earlier one has its role and key -/
  | accepted {s : AccessorSpec} :
      AccessorSpec.ofMethod serializer interface m = .ok s →
      (∀ e ∈ earlier, ¬ (e.role = s.role ∧ e.key = s.key)) →
      Judged serializer earlier interface m (.ok s)

namespace Judged

variable {serializer : Option String} {earlier : List AccessorSpec} {interface : String}
  {m : MethodDecl} {result : Except Problem AccessorSpec}

/-- An accessor belongs to its method. -/
theorem of_ok {s : AccessorSpec} (h : Judged serializer earlier interface m (.ok s)) :
    s.interface = interface ∧ s.method = m.name := by
  cases h with
  | accepted hs _ =>
    obtain ⟨hi, hm, -⟩ := AccessorSpec.ofMethod_ok hs
    exact ⟨hi, hm⟩

/-- A problem is one of methods, and is attributed to its method. -/
theorem of_error {p : Problem} (h : Judged serializer earlier interface m (.error p)) :
    p.isOfMethod = true ∧ p.attribution? = some (.ofMethod interface m.name m.location) := by
  cases h with
  | refused hp =>
    obtain ⟨hk, -, ha⟩ := AccessorSpec.ofMethod_error hp
    exact ⟨hk, ha⟩
  | repeated _ _ _ _ => exact ⟨rfl, rfl⟩

/-- A method is a duplicate exactly when it would be an accessor and an earlier one has its role
and key. -/
theorem isDuplicate_iff (h : Judged serializer earlier interface m result) :
    (∃ p, result = .error p ∧ p.isDuplicate = true) ↔
      ∃ s, AccessorSpec.ofMethod serializer interface m = .ok s ∧
        ∃ e ∈ earlier, e.role = s.role ∧ e.key = s.key := by
  constructor
  · rintro ⟨p, rfl, hdup⟩
    cases h with
    | refused hp =>
      rw [(AccessorSpec.ofMethod_error hp).2.1] at hdup
      cases hdup
    | repeated hs he hrole hkey => exact ⟨_, hs, _, he, hrole, hkey⟩
  · rintro ⟨s, hs, e, he, hrole, hkey⟩
    cases h with
    | refused hp =>
      rw [hp] at hs
      cases hs
    | repeated _ _ _ _ => exact ⟨_, rfl, rfl⟩
    | accepted hs' hfree =>
      rw [hs'] at hs
      cases hs
      exact absurd ⟨hrole, hkey⟩ (hfree e he)

/-- A duplicate names the method of an earlier accessor with its role and key. -/
theorem duplicate_names {key first method : String} {role : Role} {site : Attribution}
    (h : Judged serializer earlier interface m
      (.error (.duplicateKey key role first method site))) :
    method = m.name ∧ ∃ e ∈ earlier, e.role = role ∧ e.key = key ∧ e.method = first := by
  cases h with
  | refused hp =>
    have := (AccessorSpec.ofMethod_error hp).2.1
    cases this
  | repeated _ he hrole hkey => exact ⟨rfl, _, he, hrole, hkey, rfl⟩

end Judged

/-- Classifying judges a method by the accessors of the key space, and adds the accessor that it
makes of it. -/
theorem KeySpace.Holds.classify {k : KeySpace} {earlier : List AccessorSpec} (h : k.Holds earlier)
    (serializer : Option String) (interface : String) (m : MethodDecl) :
    (∃ p, k.classify serializer interface m = .error p ∧
      Judged serializer earlier interface m (.error p)) ∨
    (∃ s, k.classify serializer interface m = .ok (s, k.push s) ∧
      Judged serializer earlier interface m (.ok s)) := by
  unfold KeySpace.classify
  cases hm : AccessorSpec.ofMethod serializer interface m with
  | error p => exact Or.inl ⟨p, rfl, .refused hm⟩
  | ok s =>
    obtain ⟨hi, hname, hloc⟩ := AccessorSpec.ofMethod_ok hm
    cases hf : KeySpace.find? (k.ofRole s.role) s.key with
    | some e =>
      obtain ⟨he, hrole, hkey⟩ := h.of_find?_eq_some hf
      have hreg : k.register s
          = .error (.duplicateKey s.key s.role e.method s.method s.attribution) := by
        unfold KeySpace.register
        rw [hf]
      have hsite : s.attribution = .ofMethod interface m.name m.location := by
        rw [AccessorSpec.attribution, hi, hname, hloc]
      rw [hname, hsite] at hreg
      refine Or.inl ⟨_, ?_, .repeated hm he hrole hkey⟩
      show (k.register s >>= fun k' => pure (s, k')) = _
      rw [hreg]
      rfl
    | none =>
      have hreg : k.register s = .ok (k.push s) := by
        unfold KeySpace.register
        rw [hf]
      refine Or.inr ⟨s, ?_, .accepted hm (h.of_find?_eq_none hf)⟩
      show (k.register s >>= fun k' => pure (s, k')) = _
      rw [hreg]
      rfl

end TypedSettings
