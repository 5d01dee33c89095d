import TypedSettings.Proofs.Interface.Manifests
import TypedSettings.Proofs.Walk.Account

/-!
External interfaces in a walk. A declared interface is preferred to an external one wherever its
name stands among the candidates of a reference, and an external interface brings signatures alone:
its accessors have the key of their names and no default of their own.

* `World.resolve?_eq_some_iff`: what a reference stands for.
* `AccessorSpec.ofMethod_signature`: what an accessor is that is made of a signature.
* `Walk.ofRoot_external`: both, for every walk over manifests that were loaded.
-/

namespace TypedSettings

/-! ## What a reference stands for -/

/-- `x` is what the first name that has an answer answers with. -/
def FirstAnswer {α : Type} (look : String → Option α) (names : List String) (x : α) : Prop :=
  ∃ before name after, names = before ++ name :: after ∧ look name = some x ∧
    ∀ n ∈ before, look n = none

/-- A reference stands for the first candidate that is declared, wherever it stands, and for the
first that is registered only where none is declared. -/
theorem World.resolve?_eq_some_iff {w : World} {a : AncestorRef} {r : Reached} :
    w.resolve? a = some r ↔
      (∃ d, r = .declared d ∧ FirstAnswer w.declarations.get? a.candidates d) ∨
      (∃ e, r = .external e ∧ (∀ n ∈ a.candidates, w.declarations.get? n = none) ∧
        FirstAnswer w.registry.get? a.candidates e) := by
  unfold resolve? FirstAnswer
  cases hdeclared : a.candidates.findSome? w.declarations.get? with
  | some d =>
    obtain ⟨name, hname, hget⟩ := List.exists_of_findSome?_eq_some hdeclared
    constructor
    · intro h
      cases h
      exact .inl ⟨d, rfl, List.findSome?_eq_some_iff.1 hdeclared⟩
    · rintro (⟨d', rfl, hfirst⟩ | ⟨e, -, hnone, -⟩)
      · cases hdeclared.symm.trans (List.findSome?_eq_some_iff.2 hfirst)
        rfl
      · rw [hnone name hname] at hget
        cases hget
  | none =>
    have hnone := List.findSome?_eq_none_iff.1 hdeclared
    dsimp only
    rw [Option.map_eq_some_iff]
    constructor
    · rintro ⟨e, he, rfl⟩
      exact .inr ⟨e, rfl, hnone, List.findSome?_eq_some_iff.1 he⟩
    · rintro (⟨d, -, before, name, after, hnames, hget, -⟩ | ⟨e, rfl, -, hfirst⟩)
      · rw [hnone name (by rw [hnames]; simp)] at hget
        cases hget
      · exact ⟨e, List.findSome?_eq_some_iff.2 hfirst, rfl⟩

/-! ## Accessors of signatures -/

/-- The accessor is made of the method's signature alone. -/
structure AccessorSpec.OfSignature (m : MethodDecl) (s : AccessorSpec) : Prop where
  method : s.method = m.name
  role : m.role = .ok s.role
  key : s.key = Key.derive m.name s.role
  implicit : s.hasExplicitDefault = false
  default : s.default = match s.role with
    | .getter => some s.kind.zeroDefault
    | .putter => none

theorem AccessorSpec.ofMethod_signature {serializer : Option String} {interface : String}
    {m : MethodDecl} {s : AccessorSpec} (h : ofMethod serializer interface m = .ok s)
    (hm : m.metadata = {}) : OfSignature m s := by
  obtain ⟨hrole, -, -, found, hfound, hkey, hdefault, hexplicit⟩ := ofMethod_fields h
  have hderived : Key.ofMethod m s.role = Key.derive m.name s.role := by
    rw [Key.ofMethod, hm]
  have hresolution : found = ⟨Key.derive m.name s.role,
      match s.role with
      | .getter => some s.kind.zeroDefault
      | .putter => none, false⟩ := by
    unfold Key.resolve at hfound
    rw [hderived, hm] at hfound
    dsimp only at hfound
    split at hfound
    · cases hfound
    · cases hrole' : s.role <;> rw [hrole'] at hfound <;> cases hfound <;> rfl
  subst hresolution
  exact ⟨(ofMethod_ok h).2.1, hrole, hkey, hexplicit, hdefault⟩

/-! ## Walks over manifests -/

namespace Registry

/-- The interfaces that are known before any manifest. -/
def initial (bundled : Bool) : Registry := if bundled then .bundled else {}

theorem initial_eq_foldl (bundled : Bool) :
    initial bundled = (initial bundled).interfaces.foldl insert {} := by
  cases bundled <;> rfl

theorem initial_metadata (bundled : Bool) :
    ∀ e ∈ (initial bundled).interfaces, ∀ m ∈ e.methods, m.metadata = {} := by
  cases bundled
  · exact fun e he => nomatch he
  · simp [initial, Registry.bundled, property]

end Registry

namespace Walk

/-- In a walk over manifests that were loaded, a registered name answers with the last entry of it;
a reference stands for its first declared candidate, else for its first registered one; and an
accessor of an external interface is made of a signature of that interface alone, whatever the
declared interfaces say of their methods. -/
theorem ofRoot_external (w : World) (root : InterfaceDecl) (bundled : Bool)
    (texts : List (FilePath × Option String))
    (hload : (Registry.initial bundled).loadAll texts = .ok w.registry)
    (hroot : w.declarations.get? root.name = some root) :
    (∃ loaded, List.Forall₂ (fun f found => ∃ text, f.2 = some text ∧
        Manifest.Describes text found) texts loaded ∧
      ∀ name e, w.registry.get? name = some e ↔
        Registry.LastNamed ((Registry.initial bundled).interfaces ++ loaded.flatten) name e) ∧
    (∀ a r, w.resolve? a = some r ↔
      (∃ d, r = .declared d ∧ FirstAnswer w.declarations.get? a.candidates d) ∨
      (∃ e, r = .external e ∧ (∀ n ∈ a.candidates, w.declarations.get? n = none) ∧
        FirstAnswer w.registry.get? a.candidates e)) ∧
    ∀ s ∈ (ofRoot w root).outcome.specs, ∀ e, w.Reaches (.declared root) (.external e) →
      s.interface = e.name →
      ∃ m ∈ e.methods, s.OfSignature m ∧
        AccessorSpec.ofMethod w.serializer e.name m = .ok s := by
  obtain ⟨loaded, hloaded, hregistry⟩ := Registry.loadAll_eq_ok_iff.1 hload
  have hall : w.registry
      = ((Registry.initial bundled).interfaces ++ loaded.flatten).foldl Registry.insert {} := by
    rw [hregistry, List.foldl_append, ← Registry.initial_eq_foldl]
  have hlast (name : String) (e : ExternalInterface) : w.registry.get? name = some e ↔
      Registry.LastNamed ((Registry.initial bundled).interfaces ++ loaded.flatten) name e := by
    rw [hall, Registry.get?_foldl_insert_eq_some_iff]
    exact or_iff_left fun h => nomatch h.2
  -- an interface of the registry stands in a manifest, or came along
  have hmetadata {name : String} {e : ExternalInterface} (he : w.registry.get? name = some e) :
      ∀ m ∈ e.methods, m.metadata = {} := by
    obtain ⟨before, after, heq, -⟩ := (hlast name e).1 he
    have hmem : e ∈ (Registry.initial bundled).interfaces ++ loaded.flatten := by
      rw [heq]
      exact List.mem_append_right _ List.mem_cons_self
    rcases List.mem_append.1 hmem with hmem | hmem
    · exact Registry.initial_metadata bundled e hmem
    · obtain ⟨found, hfound, hmem⟩ := List.mem_flatten.1 hmem
      obtain ⟨_, -, _, -, entries, -, hentries⟩ := exists_of_forall₂ hloaded.flip hfound
      obtain ⟨entry, -, hentry⟩ := exists_of_forall₂ hentries.flip hmem
      exact Manifest.interface_metadata hentry
  refine ⟨⟨loaded, hloaded, hlast⟩, fun a r => World.resolve?_eq_some_iff, ?_⟩
  intro s hs e hreach hname
  obtain ⟨r, m, hr, hm, hok⟩ := exists_method hs
  have hstands : w.Stands (.declared root) := hroot
  obtain rfl : r = .external e := by
    refine (hr.stands hstands).eq_of_name (hreach.stands hstands) ?_
    exact (AccessorSpec.ofMethod_ok hok).1.symm.trans hname
  have hget : w.registry.get? e.name = some e := (hreach.stands hstands).2
  exact ⟨m, hm, AccessorSpec.ofMethod_signature hok (hmetadata hget m hm), hok⟩

/-! A root that names the key and the default of a method of its own, above an external interface of
which the second manifest says the last word. -/

def tunerTexts : List (FilePath × Option String) :=
  [(⟨"stations.toml"⟩, some ("[[interface]]\nname = \"vendor::Tuner\"\n"
      ++ "[[interface.method]]\nname = \"band\"\nreturns = \"String\"\n")),
   (⟨"volumes.toml"⟩, some ("[[interface]]\nname = \"vendor::Tuner\"\n"
      ++ "[[interface.method]]\nname = \"get_volume\"\nreturns = \"i32\"\n"))]

def tunerRegistry : Registry := ((Registry.initial false).loadAll tunerTexts).toOption.getD {}

def tunerRoot : InterfaceDecl :=
  { name := "crate::Radio"
    methods := [{ name := "volume", returns := .named "i32"
                  metadata := ⟨some "gain", some (.literal (.ofText "7"))⟩ }]
    ancestors := [⟨"Tuner", ["crate::Tuner", "vendor::Tuner"]⟩] }

def tunerWorld : World := ⟨⟨[tunerRoot]⟩, tunerRegistry, none⟩

theorem tuner_evaluated :
    ((Registry.initial false).loadAll tunerTexts).isOk = true ∧
    tunerWorld.isContract ⟨"Tuner", ["crate::Tuner", "vendor::Tuner"]⟩ = false ∧
    ((tunerWorld.resolve? ⟨"Tuner", ["crate::Tuner", "vendor::Tuner"]⟩).any fun r =>
      r.isExternal && r.name == "vendor::Tuner" && r.ancestors.isEmpty
        && ((({} : Walk).visit tunerWorld (.declared tunerRoot)).visit tunerWorld r).outcome.specs.map
          (fun s => (s.interface, s.method, s.role))
            == [("crate::Radio", "volume", .getter), ("vendor::Tuner", "get_volume", .getter)])
      = true := by
  decide +kernel

theorem ofRoot_external_tuner :
    (Registry.initial false).loadAll tunerTexts = .ok tunerWorld.registry ∧
    tunerWorld.declarations.get? tunerRoot.name = some tunerRoot ∧
    ∃ s ∈ (ofRoot tunerWorld tunerRoot).outcome.specs, s.interface = "vendor::Tuner" ∧
      s.method = "get_volume" ∧ s.key = "volume" ∧ s.hasExplicitDefault = false ∧
      s.default = some s.kind.zeroDefault := by
  obtain ⟨hok, hcontract, hresolved⟩ := tuner_evaluated
  have hload : (Registry.initial false).loadAll tunerTexts = .ok tunerWorld.registry := by
    obtain ⟨r, hr⟩ := exists_of_isOk hok
    simp only [tunerWorld, tunerRegistry, hr, Except.toOption, Option.getD_some]
  obtain ⟨r, hr, hfacts⟩ := (Option.any_eq_true _ _).1 hresolved
  simp only [Bool.and_eq_true, beq_iff_eq, List.isEmpty_iff] at hfacts
  obtain ⟨⟨⟨hexternal, hname⟩, hleaf⟩, hspecs⟩ := hfacts
  have hwalk : ofRoot tunerWorld tunerRoot
      = (({} : Walk).visit tunerWorld (.declared tunerRoot)).visit tunerWorld r :=
    ofRoot_leaf rfl hcontract hr hleaf (by rw [hname]; decide)
  obtain ⟨s, hs, hfields⟩ : ∃ s ∈ (ofRoot tunerWorld tunerRoot).outcome.specs,
      (s.interface, s.method, s.role) = ("vendor::Tuner", "get_volume", .getter) := by
    rw [hwalk]
    refine List.mem_map.1 ?_
    rw [hspecs]
    simp
  obtain ⟨hinterface, hmethod, hrole⟩ : s.interface = "vendor::Tuner" ∧ s.method = "get_volume" ∧
      s.role = .getter := by simpa using hfields
  obtain ⟨e, rfl⟩ : ∃ e, r = .external e := by
    cases r with
    | declared d => cases hexternal
    | external e => exact ⟨e, rfl⟩
  have hreach : tunerWorld.Reaches (.declared tunerRoot) (.external e) :=
    .single ⟨_, List.mem_singleton_self _, hcontract, hr⟩
  obtain ⟨-, -, haccessors⟩ := ofRoot_external tunerWorld tunerRoot false tunerTexts hload rfl
  obtain ⟨m, -, hsignature, -⟩ := haccessors s hs e hreach (hinterface.trans hname.symm)
  refine ⟨hload, rfl, s, hs, hinterface, hmethod, ?_, hsignature.implicit, ?_⟩
  · rw [hsignature.key, ← hsignature.method, hmethod, hrole]
    decide +kernel
  · rw [hsignature.default, hrole]

end Walk

end TypedSettings
