import TypedSettings.Proofs.Accessor.Coverage
import TypedSettings.Proofs.Unit.Assembly

/-!
The two actions of a unit that depend on its keys: one removes every key, and one stores what every
getter reads, where getter and putter agree on the type.

* `initDefaults_eq_ok`: the stored pairs, statement by statement.
* `actions_cover`: the keys that are removed, and what each of them is accounted for by.
-/

namespace TypedSettings

namespace Emit

/-- A statement that calls the putter of a pair on the value of its getter, each by the interface
that declares it. -/
def Stores (pair : AccessorSpec × AccessorSpec) (stmt : Stmt) : Prop :=
  ∃ putterTrait getterTrait, CodePath.read pair.2.interface = .ok putterTrait ∧
    CodePath.read pair.1.interface = .ok getterTrait ∧
    stmt = .store putterTrait pair.2.method getterTrait pair.1.method

theorem storeStmt_eq_ok {g p : AccessorSpec} {stmt : Stmt} (h : storeStmt g p = .ok stmt) :
    Stores (g, p) stmt := by
  obtain ⟨getterTrait, hgetter, h⟩ := bind_eq_ok.1 h
  obtain ⟨putterTrait, hputter, h⟩ := bind_eq_ok.1 h
  obtain ⟨getterName, hgetterName, h⟩ := bind_eq_ok.1 h
  obtain ⟨putterName, hputterName, h⟩ := bind_eq_ok.1 h
  cases h
  rw [(identifier_eq_ok hgetterName).1, (identifier_eq_ok hputterName).1]
  exact ⟨putterTrait, getterTrait, hputter, hgetter, rfl⟩

theorem initDefaults_eq_ok {k : KeySpace} {init : GeneratedMethod} (h : initDefaults k = .ok init) :
    init.name = "init_defaults" ∧ List.Forall₂ Stores (storedPairs k) init.body := by
  obtain ⟨body, hbody, h⟩ := bind_eq_ok.1 h
  cases h
  exact ⟨rfl, (mapM_eq_ok_iff.1 hbody).imp fun _ _ => storeStmt_eq_ok⟩

theorem actions_eq_ok {t : Target} {k : KeySpace} {methods : List GeneratedMethod}
    (h : actions t k = .ok methods) :
    ∃ init, initDefaults k = .ok init ∧
      methods = fixedActions t ++ [clearDefined t k.definedKeys, init] := by
  obtain ⟨init, hinit, h⟩ := bind_eq_ok.1 h
  cases h
  exact ⟨init, hinit, rfl⟩

/-- What the actions make of the keys of registered accessors: `keys` are removed, and `pairs` are
stored. -/
structure Covers (specs : List AccessorSpec) (warnings : List Warning) (keys : List String)
    (pairs : List (AccessorSpec × AccessorSpec)) : Prop where
  /-- the keys of getters, in the order they were registered, then those that only putters have -/
  order : keys = ((specs.filter fun s => s.role == .getter).map AccessorSpec.key)
    ++ ((specs.filter fun s => s.role == .putter &&
      !specs.any fun g => g.role == .getter && g.key == s.key).map AccessorSpec.key)
  nodup : keys.Nodup
  mem_iff : ∀ key, key ∈ keys ↔ ∃ s ∈ specs, s.key = key
  /-- what is stored is a pair of one key and one type -/
  stored : ∀ pair ∈ pairs, KeySpace.IsPair specs pair.1 pair.2 ∧ pair.1.type = pair.2.type
  warned : ∀ wn ∈ warnings, wn.Concerns specs
  /-- a key is the key of one pair that is stored, or of one remark, and not of both -/
  accounts : (pairs.map (fun p => p.1.key) ++ warnings.map Warning.key).Perm keys

theorem covers_of_holds {k : KeySpace} {specs : List AccessorSpec} (h : k.Holds specs)
    (hapart : KeySpace.Apart specs) : Covers specs k.warnings k.definedKeys (storedPairs k) where
  order := by
    have hgetters : k.getters = specs.filter fun s => s.role == .getter := h .getter
    have hputters : k.putters = specs.filter fun s => s.role == .putter := h .putter
    rw [KeySpace.definedKeys, ← hgetters, hputters, List.filter_filter]
    congr 3
    funext s
    have hknown : KeySpace.contains k.getters s.key
        = specs.any fun g => g.role == .getter && g.key == s.key := by
      rw [Bool.eq_iff_iff, show k.getters = k.ofRole .getter from rfl, h.contains_iff]
      simp
    rw [hknown, Bool.and_comm]
  nodup := KeySpace.definedKeys_nodup h hapart
  mem_iff := fun _ => KeySpace.mem_definedKeys h
  stored := by
    rintro ⟨g, p⟩ hpair
    obtain ⟨hpair, htypes⟩ := List.mem_filter.1 hpair
    exact ⟨h.isPair hpair, beq_iff_eq.1 htypes⟩
  warned := fun _ => h.warning
  accounts := KeySpace.accounts_perm k

def deckAccessor (role : Role) (key type : String) : AccessorSpec :=
  { key, role, kind := .serialized, type := .named type, hasExplicitDefault := false
    default := none, interface := "crate::Deck", method := role.text ++ "_" ++ key, param := none
    returns := .unit, isFluent := false, location := none }

def deckOffers : List AccessorSpec :=
  [deckAccessor .getter "volume" "i32", deckAccessor .putter "muted" "bool",
   deckAccessor .putter "volume" "i32", deckAccessor .getter "theme" "String",
   deckAccessor .getter "zoom" "i32", deckAccessor .putter "zoom" "i64",
   deckAccessor .getter "volume" "i64"]

end Emit

end TypedSettings
