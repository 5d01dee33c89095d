import TypedSettings.Proofs.Source.Numerals
import TypedSettings.Unit.Accessor

/-!
Integer literals as the defaults of getters. A getter hands its default on to the store, so the
literal has the type that the store's method takes. For a float it is the operand of a conversion,
where nothing is expected of it.

* `Key.resolve_numeral_iff`: the integer literals that are taken as a default.
* `Key.resolve_numeral`: what they are in the getter, and that they fit there unless they are
  converted to a float.
-/

namespace TypedSettings

open Source Source.Token

/-! ## Types of integers -/

/-- The types that an integer can have in a getter. -/
inductive IntType where
  | i32
  | i64
deriving DecidableEq, Repr

namespace IntType

def name : IntType → String
  | i32 => "i32"
  | i64 => "i64"

def bits : IntType → Nat
  | i32 => 32
  | i64 => 64

/-- The kind of stored values that has the type. -/
def stored : IntType → StoreKind
  | i32 => .int
  | i64 => .long

/-- The numbers of a type. -/
def Holds (τ : IntType) (v : Int) : Prop := -2 ^ (τ.bits - 1) ≤ v ∧ v < 2 ^ (τ.bits - 1)

instance (τ : IntType) (v : Int) : Decidable (τ.Holds v) :=
  inferInstanceAs (Decidable (_ ∧ _))

theorem fitsSigned_iff (τ : IntType) (v : Int) :
    Text.Bits.fitsSigned τ.bits v = true ↔ τ.Holds v := by
  rw [Text.Bits.fitsSigned, Bool.and_eq_true, decide_eq_true_iff, decide_eq_true_iff]
  cases τ <;> rfl

/-- The type of a literal: what its suffix names, else what its place expects. An integer of which
neither says anything is an `i32`. -/
def ofLiteral (suffix : String) (expected : Option IntType) : IntType :=
  (([i32, i64].find? fun τ => τ.name = suffix).or expected).getD i32

theorem ofLiteral_expected {τ : IntType} {suffix : String} (h : suffix = "" ∨ suffix = τ.name) :
    ofLiteral suffix (some τ) = τ := by
  rcases h with rfl | rfl <;> cases τ <;> rfl

end IntType

/-- An integer literal in a getter's statement, and the type that is expected of it: as an argument
the one of the store's method, and none as the operand of a conversion. -/
inductive Stmt.Expects (key : String) (literal : List Token) : Stmt → Option IntType → Prop where
  | argument (τ : IntType) : Expects key literal (.read τ.stored key literal) (some τ)
  | operand :
    Expects key literal (.read .float key [delimited .paren (literal ++ code ["as", "f32"])]) none

/-- The kinds of values that take an integer as a default. For a float it only needs to have no
suffix. -/
inductive Key.Takes (n : Numeral) : StoreKind → Prop where
  | checked (τ : IntType) (suffix : String.ofList n.suffix = "" ∨ String.ofList n.suffix = τ.name)
    (holds : τ.Holds n.value) : Takes n τ.stored
  | float (suffix : String.ofList n.suffix = "") : Takes n .float

namespace Key

variable {n : Numeral} {pos at' : Position} {interface : String} {m : MethodDecl}
  {kind : ValueKind} {found : Resolution}

/-! ## Literals that are taken -/

theorem literalFits_stored (τ : IntType) :
    literalFits (n.literal pos at') τ.stored
      = ((String.ofList n.suffix == "" || String.ofList n.suffix == τ.name)
          && Text.Bits.fitsSigned τ.bits n.value) := by
  cases τ <;> rfl

theorem literalFits_numeral_iff {stored : StoreKind} :
    literalFits (n.literal pos at') stored = true ↔ Takes n stored := by
  have hchecked (τ : IntType) : literalFits (n.literal pos at') τ.stored = true ↔
      (String.ofList n.suffix = "" ∨ String.ofList n.suffix = τ.name) ∧ τ.Holds n.value := by
    rw [literalFits_stored, Bool.and_eq_true, IntType.fitsSigned_iff, Bool.or_eq_true, beq_iff_eq,
      beq_iff_eq]
  constructor
  · intro h
    cases stored with
    | int => exact .checked .i32 ((hchecked .i32).1 h).1 ((hchecked .i32).1 h).2
    | long => exact .checked .i64 ((hchecked .i64).1 h).1 ((hchecked .i64).1 h).2
    | float => exact .float (beq_iff_eq.1 h)
    | boolean | string | stringSet => cases h
  · rintro (⟨τ, hsuffix, hv⟩ | hsuffix)
    · exact (hchecked τ).2 ⟨hsuffix, hv⟩
    · exact beq_iff_eq.2 hsuffix

theorem checkLiteral_eq_ok_iff {l : Literal} :
    checkLiteral l kind = .ok () ↔
      ∃ stored, kind = .primitive stored ∧ literalFits l stored = true := by
  unfold checkLiteral
  split
  · exact ⟨nofun, nofun⟩
  · refine ⟨nofun, ?_⟩
    rintro ⟨_, ⟨⟩, ⟨⟩⟩
  · next stored _ =>
    split
    · next hfits => exact ⟨fun _ => ⟨stored, rfl, hfits⟩, fun _ => rfl⟩
    · next hfits =>
      refine ⟨nofun, ?_⟩
      rintro ⟨_, ⟨⟩, h⟩
      exact absurd h hfits

/-- An integer literal is taken as a default by the kinds of values that take it. -/
theorem resolve_numeral_iff (hm : m.metadata.default = some (.literal (n.literal pos at'))) :
    resolve interface m .getter kind = .ok found ↔
      found = ⟨ofMethod m .getter, some (.literal (n.literal pos at')), true⟩ ∧
      ofMethod m .getter ≠ "" ∧ ∃ stored, kind = .primitive stored ∧ Takes n stored := by
  have haccept : checkLiteral (n.literal pos at') kind = .ok () ↔
      ∃ stored, kind = .primitive stored ∧ Takes n stored := by
    rw [checkLiteral_eq_ok_iff]
    simp only [literalFits_numeral_iff]
  rw [← haccept]
  unfold resolve
  dsimp only
  by_cases hkey : ofMethod m .getter = ""
  · rw [if_pos hkey]
    exact ⟨nofun, fun h => absurd hkey h.2.1⟩
  · rw [if_neg hkey, hm]
    dsimp only
    cases checkLiteral (n.literal pos at') kind with
    | ok _ => exact ⟨fun h => ⟨(Except.ok.inj h).symm, hkey, rfl⟩, fun h => h.1 ▸ rfl⟩
    | error _ => exact ⟨nofun, fun h => nomatch h.2.2⟩

/-! ## What they are in the getter -/

theorem readStmt_literal {s : AccessorSpec} (t : Target) (type : List Token) {τ : IntType}
    {l : Literal} (hkind : s.kind = .primitive τ.stored)
    (hdefault : s.default = some (.literal l)) :
    Emit.readStmt s t type = .ok (.read τ.stored s.key l.tokens) := by
  unfold Emit.readStmt
  rw [hkind, hdefault]
  cases τ <;> simp [IntType.stored, Emit.borrowedDefault, Emit.defaultTokens]

theorem readStmt_converted {s : AccessorSpec} (t : Target) (type : List Token)
    (hkind : s.kind = .primitive .float)
    (hdefault : s.default = some (.literal (n.literal pos at'))) :
    Emit.readStmt s t type = .ok (.read .float s.key
      [delimited .paren (n.tokens false pos at' ++ code ["as", "f32"])]) := by
  unfold Emit.readStmt
  rw [hkind, hdefault]
  rfl

/-- An integer literal that is taken as a default is written into the getter's statement, with the
type that is expected there. It fits in that type, unless it is converted to a float: then it is an
`i32`, and was not checked. -/
theorem resolve_numeral (hm : m.metadata.default = some (.literal (n.literal pos at')))
    (h : resolve interface m .getter kind = .ok found) (s : AccessorSpec)
    (hkey : s.key = found.key) (hkind : s.kind = kind) (hdefault : s.default = found.default)
    (t : Target) (type : List Token) :
    ∃ stmt expected, Emit.readStmt s t type = .ok stmt ∧
      stmt.Expects found.key (n.tokens false pos at') expected ∧
      (∀ τ, expected = some τ → IntType.ofLiteral (String.ofList n.suffix) expected = τ) ∧
      ((IntType.ofLiteral (String.ofList n.suffix) expected).Holds n.value ↔
        (kind = .primitive .float → IntType.i32.Holds n.value)) := by
  obtain ⟨hfound, -, stored, rfl, htakes⟩ := (resolve_numeral_iff hm).1 h
  have hliteral : s.default = some (.literal (n.literal pos at')) := by rw [hdefault, hfound]
  rw [← hkey]
  cases htakes with
  | checked τ hsuffix hv =>
    have htype := IntType.ofLiteral_expected hsuffix
    refine ⟨_, some τ, readStmt_literal t type hkind hliteral, .argument τ, ?_, ?_⟩
    · rintro _ ⟨⟩
      exact htype
    · rw [htype]
      refine ⟨fun _ hfloat => ?_, fun _ => hv⟩
      cases τ <;> cases hfloat
  | float hsuffix =>
    refine ⟨_, none, readStmt_converted t type hkind hliteral, .operand, nofun, ?_⟩
    rw [hsuffix]
    exact ⟨fun hv _ => hv, fun hv => hv rfl⟩

/-- Three billion, written with underscores. -/
def threeBillion : Numeral where
  base := .decimal
  digits := "3_000_000_000".toList
  isDigit := by
    have hall : ("3_000_000_000".toList.all fun c =>
        c == '_' || Base.decimal.isDigit c) = true := by
      decide
    simpa only [List.all_eq_true, Bool.or_eq_true, beq_iff_eq] using hall
  hasDigit := ⟨'3', List.mem_cons_self, rfl⟩
  stops := by decide
  plain := by decide

/-- A literal that is no `i32` is taken as the default of a float. -/
theorem resolve_numeral_overflow :
    let literal := threeBillion.literal {} {}
    let m : MethodDecl :=
      { name := "ratio", returns := .named "f32"
        metadata := { default := some (.literal literal) } }
    ∃ s : AccessorSpec, AccessorSpec.ofMethod none "crate::Settings" m = .ok s ∧
      ∃ stmt expected, Emit.readStmt s {} (code ["f32"]) = .ok stmt ∧
        stmt.Expects "ratio" literal.tokens expected ∧
        ¬(IntType.ofLiteral literal.suffix expected).Holds threeBillion.value := by
  intro literal m
  have hkey : ofMethod m .getter = "ratio" := by decide +kernel
  have hkind : ValueKind.resolve? none (m.valueType .getter) = some (.primitive .float) := by
    decide +kernel
  have hfound : resolve "crate::Settings" m .getter (.primitive .float)
      = .ok ⟨"ratio", some (.literal literal), true⟩ := by
    rw [resolve_numeral_iff rfl, hkey]
    exact ⟨rfl, by decide, _, rfl, .float (by decide)⟩
  have hspec : ∃ s, AccessorSpec.ofMethod none "crate::Settings" m = .ok s ∧ s.key = "ratio" ∧
      s.kind = .primitive .float ∧ s.default = some (.literal literal) := by
    unfold AccessorSpec.ofMethod
    have hrole : m.role = .ok .getter := by rfl
    rw [hrole]
    dsimp only [bind, Except.bind, pure, Except.pure]
    rw [hkind]
    dsimp only
    rw [hfound]
    exact ⟨_, rfl, rfl, rfl, rfl⟩
  obtain ⟨s, hs, hskey, hskind, hsdefault⟩ := hspec
  refine ⟨s, hs, ?_⟩
  obtain ⟨stmt, expected, hstmt, hexpects, -, hholds⟩ :=
    resolve_numeral rfl hfound s hskey hskind hsdefault {} (code ["f32"])
  refine ⟨stmt, expected, hstmt, hexpects, fun h => ?_⟩
  exact absurd (hholds.1 h rfl) (by decide)

end Key

end TypedSettings
