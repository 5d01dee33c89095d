import TypedSettings.Proofs.Source.Lexing
import TypedSettings.Proofs.Unit.Stored

/-!
Methods that are named for one setting: the getter is `b`, `get_b` or `is_b`, and the putter is
`set_b` or `put_b`. Their key is `b`, and they meet there, as long as both names are plain. A raw
name such as `r#b` keeps its `r#`: a mark does not stand at its start, and the name is the key as it
is written.

* `Key.derive_spelled`: the key of each such name.
* `Walk.Meet`: what becomes of a getter and a putter of one setting.
* `Key.named_for_setting`: the keys of the methods of a setting, and where they meet.
-/

namespace TypedSettings

open Source

namespace Key

/-! ## Marks -/

theorem after?_eq_some_iff {start text rest : List Char} :
    after? start text = some rest ↔ text = start ++ rest := by
  induction start generalizing text with
  | nil => simp [after?]
  | cons s start ih =>
    cases text with
    | nil => simp [after?]
    | cons c text =>
      by_cases hsc : s = c
      · subst hsc
        simp [after?, ih]
      · simp [after?, hsc, Ne.symm hsc]

/-- A name that starts with no mark is its own key. -/
theorem derive_unmarked {name : String} {role : Role}
    (h : ∀ mark ∈ marks role, ¬ mark.toList <+: name.toList) : derive name role = name := by
  have hnone : ((marks role).findSome? fun mark => after? mark.toList name.toList) = none := by
    rw [List.findSome?_eq_none_iff]
    intro mark hmark
    rw [Option.eq_none_iff_forall_ne_some]
    intro rest hrest
    exact h mark hmark ⟨rest, (after?_eq_some_iff.1 hrest).symm⟩
  rw [derive, hnone]

/-- Behind a mark stands the key: no mark of a role is the start of another. -/
theorem derive_marked {name mark : String} {role : Role} (h : mark ∈ marks role) :
    derive (mark ++ name) role = name := by
  have hfind : ((marks role).findSome? fun m => after? m.toList (mark ++ name).toList)
      = some name.toList := by
    rw [String.toList_append]
    cases role with
    | getter => rcases List.mem_pair.1 h with rfl | rfl <;> rfl
    | putter => rcases List.mem_pair.1 h with rfl | rfl <;> rfl
  rw [derive, hfind]
  exact String.ofList_toList

/-- What may stand in front of the name of a setting. A getter may have no mark. -/
def fronts : Role → List String
  | .getter => "" :: marks .getter
  | .putter => marks .putter

/-- A name in source: as it is, or raw. -/
def spelled (raw : Bool) (name : String) : String := if raw then "r#" ++ name else name

/-- The name of a setting: a word that starts with no mark of either role. -/
structure Setting (b : String) : Prop where
  word : Emit.isWordText b.toList = true
  unmarked : ∀ role, ∀ mark ∈ marks role, ¬ mark.toList <+: b.toList

variable {b : String}

/-- A raw name starts with no mark. -/
theorem derive_raw (name : String) (role : Role) : derive ("r#" ++ name) role = "r#" ++ name := by
  have hfind : ((marks role).findSome? fun m => after? m.toList ("r#" ++ name).toList) = none := by
    rw [String.toList_append]
    cases role <;> rfl
  rw [derive, hfind]

/-- The key of a method that is named for a setting, where it names no other: the setting, if the
name is plain, and else the name as it is written. -/
theorem derive_spelled (hb : Setting b) (raw : Bool) {role : Role} {front : String}
    (hfront : front ∈ fronts role) :
    derive (spelled raw (front ++ b)) role = if raw then spelled raw (front ++ b) else b := by
  cases raw with
  | true => exact derive_raw _ _
  | false =>
    show derive (front ++ b) role = b
    cases role with
    | getter =>
      rcases List.mem_cons.1 hfront with rfl | hmark
      · rw [String.empty_append]
        exact derive_unmarked (hb.unmarked .getter)
      · exact derive_marked hmark
    | putter => exact derive_marked hfront

theorem fronts_disjoint : ∀ front ∈ fronts .getter, front ∉ fronts .putter := by decide

/-- The getter and the putter of a setting have one key exactly when both names are plain. -/
theorem derive_eq_iff (hb : Setting b) {rawG rawP : Bool} {frontG frontP : String}
    (hG : frontG ∈ fronts .getter) (hP : frontP ∈ fronts .putter) :
    derive (spelled rawG (frontG ++ b)) .getter = derive (spelled rawP (frontP ++ b)) .putter ↔
      rawG = false ∧ rawP = false := by
  rw [derive_spelled hb rawG hG, derive_spelled hb rawP hP]
  have hraw (front : String) : spelled true (front ++ b) ≠ b := by
    intro heq
    have hlength := congrArg String.length heq
    rw [spelled, if_pos rfl, String.length_append, String.length_append] at hlength
    have hmark : "r#".length = 2 := rfl
    omega
  cases rawG with
  | true =>
    cases rawP with
    | true =>
      refine iff_of_false (fun heq => ?_) (fun h => Bool.false_ne_true h.1.symm)
      have hfront : frontG = frontP := by simpa [spelled] using heq
      exact fronts_disjoint _ hG (hfront ▸ hP)
    | false => exact iff_of_false (hraw frontG) (fun h => Bool.false_ne_true h.1.symm)
  | false =>
    cases rawP with
    | true => exact iff_of_false (Ne.symm (hraw frontP)) (fun h => Bool.false_ne_true h.2.symm)
    | false => exact iff_of_true rfl ⟨rfl, rfl⟩

/-! ## Methods -/

/-- A method that is named for a setting, in a role, and of which no annotation names the key. -/
structure NamedFor (b : String) (role : Role) (raw : Bool) (m : MethodDecl) : Prop where
  name : ∃ front ∈ fronts role, m.name = spelled raw (front ++ b)
  key : m.metadata.key = none

theorem NamedFor.ofMethod (hb : Setting b) {role : Role} {raw : Bool} {m : MethodDecl}
    (h : NamedFor b role raw m) : Key.ofMethod m role = if raw then m.name else b := by
  obtain ⟨front, hfront, hname⟩ := h.name
  rw [Key.ofMethod, h.key, hname]
  exact derive_spelled hb raw hfront

theorem NamedFor.ofMethod_ne (hb : Setting b) {role : Role} {raw : Bool} {m : MethodDecl}
    (h : NamedFor b role raw m) : Key.ofMethod m role ≠ "" := by
  have hne : b ≠ "" := by
    rintro rfl
    exact absurd hb.word (by decide)
  obtain ⟨front, -, hname⟩ := h.name
  rw [h.ofMethod hb]
  cases raw with
  | true =>
    rw [if_pos rfl, hname]
    simp [spelled]
  | false => exact hne

theorem resolve_key {interface : String} {m : MethodDecl} {role : Role} {kind : ValueKind}
    {found : Resolution} (h : resolve interface m role kind = .ok found) :
    found.key = ofMethod m role := by
  unfold resolve at h
  dsimp only at h
  split at h
  · cases h
  · split at h
    · cases h
      rfl
    · split at h
      · cases h
        rfl
      · cases h
        rfl
      · split at h
        · cases h
          rfl
        · cases h

/-- A key that is not empty is found, if there is no default that could be at fault. -/
theorem exists_resolve {m : MethodDecl} {role : Role} (hkey : ofMethod m role ≠ "")
    (hdefault : role = .getter → m.metadata.default = none) (interface : String)
    (kind : ValueKind) : ∃ found, resolve interface m role kind = .ok found := by
  unfold resolve
  dsimp only
  rw [if_neg hkey]
  cases role with
  | putter => exact ⟨_, rfl⟩
  | getter =>
    rw [hdefault rfl]
    exact ⟨_, rfl⟩

end Key

/-- The key of an accessor is its method's. -/
theorem AccessorSpec.ofMethod_key {serializer : Option String} {interface : String}
    {m : MethodDecl} {s : AccessorSpec} (h : ofMethod serializer interface m = .ok s) :
    s.key = Key.ofMethod m s.role := by
  obtain ⟨-, -, -, found, hfound, hkey, -⟩ := ofMethod_fields h
  rw [hkey, Key.resolve_key hfound]

/-! ## Pairs -/

namespace Walk

/-- What becomes of a getter and a putter of one type that are named for one setting; `rawG` and
`rawP` tell whether their names are raw. -/
structure Meet (w : World) (root : InterfaceDecl) (b : String) (rawG rawP : Bool)
    (g p : AccessorSpec) : Prop where
  getter_key : g.key = if rawG then g.method else b
  putter_key : p.key = if rawP then p.method else b
  /-- they meet in one key exactly when both names are plain -/
  key_eq_iff : g.key = p.key ↔ rawG = false ∧ rawP = false
  /-- and then they are stored -/
  stored_iff : (g, p) ∈ Emit.storedPairs (ofRoot w root).outcome.keys ↔
    rawG = false ∧ rawP = false
  /-- and there is no remark on the setting -/
  quiet : rawG = false → rawP = false →
    ∀ wn ∈ (ofRoot w root).outcome.keys.warnings, wn.key ≠ b
  /-- a getter is remarked on when no putter has its key -/
  noPutter_iff : .keyAsymmetry g.key .putter g.attribution
      ∈ (ofRoot w root).outcome.keys.warnings ↔
    ∀ e ∈ (ofRoot w root).outcome.specs, ¬ (e.role = .putter ∧ e.key = g.key)
  /-- and a putter when no getter has its key -/
  noGetter_iff : .keyAsymmetry p.key .getter p.attribution
      ∈ (ofRoot w root).outcome.keys.warnings ↔
    ∀ e ∈ (ofRoot w root).outcome.specs, ¬ (e.role = .getter ∧ e.key = p.key)
  /-- a unit stores the stored pairs, in order, by its last action -/
  units : ∀ t u, Emit.unit t root (ofRoot w root) = .ok u →
    ∃ clear init, u.actions = Emit.fixedActions t ++ [clear, init] ∧
      init.name = "init_defaults" ∧
      List.Forall₂ Emit.Stores (Emit.storedPairs (ofRoot w root).outcome.keys) init.body

theorem meet_of_namedFor {w : World} {root : InterfaceDecl} {b : String} {rawG rawP : Bool}
    {mg mp : MethodDecl} {ig ip : String} {g p : AccessorSpec} (hb : Key.Setting b)
    (hmg : Key.NamedFor b .getter rawG mg) (hmp : Key.NamedFor b .putter rawP mp)
    (hg : AccessorSpec.ofMethod w.serializer ig mg = .ok g)
    (hp : AccessorSpec.ofMethod w.serializer ip mp = .ok p)
    (hgmem : g ∈ (ofRoot w root).outcome.specs) (hpmem : p ∈ (ofRoot w root).outcome.specs)
    (hgrole : g.role = .getter) (hprole : p.role = .putter) (htype : g.type = p.type) :
    Meet w root b rawG rawP g p := by
  have hholds := holds_specs w root
  have hapart := apart_specs w root
  have hgkey := AccessorSpec.ofMethod_key hg
  have hpkey := AccessorSpec.ofMethod_key hp
  rw [hgrole] at hgkey
  rw [hprole] at hpkey
  have hiff : g.key = p.key ↔ rawG = false ∧ rawP = false := by
    obtain ⟨frontG, hfrontG, hnameG⟩ := hmg.name
    obtain ⟨frontP, hfrontP, hnameP⟩ := hmp.name
    rw [hgkey, hpkey, Key.ofMethod, Key.ofMethod, hmg.key, hmp.key, hnameG, hnameP]
    exact Key.derive_eq_iff hb hfrontG hfrontP
  have hpair (hkey : g.key = p.key) :
      KeySpace.IsPair (ofRoot w root).outcome.specs g p := ⟨hgmem, hpmem, hgrole, hprole, hkey⟩
  rw [hmg.ofMethod hb] at hgkey
  rw [hmp.ofMethod hb] at hpkey
  constructor
  case getter_key => rw [hgkey, (AccessorSpec.ofMethod_ok hg).2.1]
  case putter_key => rw [hpkey, (AccessorSpec.ofMethod_ok hp).2.1]
  case key_eq_iff => exact hiff
  case stored_iff =>
    rw [← hiff]
    constructor
    · intro hstored
      exact (hholds.isPair (KeySpace.mem_storedPairs_iff.1 hstored).1).2.2.2.2
    · intro hkey
      exact ((hholds.mem_storedPairs_of_isPair hapart (hpair hkey)).2 ⟨htype, rfl⟩).1
  case quiet =>
    intro hrawG hrawP wn hwn hkey
    have hgb : g.key = b := by rw [hgkey, hrawG]; rfl
    have hremark := (hholds.mem_warnings_of_isPair hapart (hpair (hiff.2 ⟨hrawG, hrawP⟩))).1
      ⟨hwn, hkey.trans hgb.symm⟩
    exact hremark.1 htype
  case noPutter_iff => exact hholds.asymmetry_mem_iff hapart hgmem hgrole
  case noGetter_iff => exact hholds.asymmetry_mem_iff hapart hpmem hprole
  case units => exact fun t u => Emit.exists_initDefaults

end Walk

/-- A getter and a putter that are named for one setting have the setting as their key when their
names are plain: they are then stored, and there is no remark on the setting. A raw name is its own
key, and with one on either side the two do not meet. -/
theorem Key.named_for_setting (b : String) (hb : Setting b) :
    (∀ raw role front, front ∈ fronts role → Source.Lexer.IsWord (spelled raw (front ++ b)) →
      ∃ pos, tokenize (spelled raw (front ++ b)) = .ok [.word (spelled raw (front ++ b)) pos]) ∧
    (∀ raw role m, NamedFor b role raw m →
      ofMethod m role = (if raw then m.name else b) ∧
      ((role = .getter → m.metadata.default = none) → ∀ interface kind,
        ∃ found, resolve interface m role kind = .ok found ∧ found.key = ofMethod m role)) ∧
    (∀ w root rawG rawP mg mp ig ip g p, NamedFor b .getter rawG mg → NamedFor b .putter rawP mp →
      AccessorSpec.ofMethod w.serializer ig mg = .ok g →
      AccessorSpec.ofMethod w.serializer ip mp = .ok p →
      g ∈ (Walk.ofRoot w root).outcome.specs → p ∈ (Walk.ofRoot w root).outcome.specs →
      g.role = .getter → p.role = .putter → g.type = p.type →
      Walk.Meet w root b rawG rawP g p) := by
  refine ⟨?_, ?_, ?_⟩
  · intro raw role front _ hword
    have hlexes := Source.Lexer.lexes_word hword Source.Lexer.stops_nil
    rw [List.append_nil] at hlexes
    obtain ⟨ts, hts, pos, rfl⟩ := Source.Lexer.tokenize_of_lexes hlexes fun c hc => (hword.2 c hc).2
    exact ⟨pos, hts⟩
  · intro raw role m hm
    refine ⟨hm.ofMethod hb, fun hdefault interface kind => ?_⟩
    obtain ⟨found, hfound⟩ := exists_resolve (hm.ofMethod_ne hb) hdefault interface kind
    exact ⟨found, hfound, resolve_key hfound⟩
  · intro w root rawG rawP mg mp ig ip g p hmg hmp hg hp hgmem hpmem hgrole hprole htype
    exact Walk.meet_of_namedFor hb hmg hmp hg hp hgmem hpmem hgrole hprole htype

/-! In source a keyword can be the name of a method only as a raw name, and that is the name of the
method. -/

example :
    (Declarations.ofText ⟨[], none, "trait Knobs \x7b fn r#type(&self); \x7d"⟩).toOption.map
      (List.map fun d => d.methods.map MethodDecl.name) = some [["r#type"]] := by
  decide +kernel

/-! A root with two settings. The getter of the first has a raw name. -/

namespace Key

def knob (name : String) : MethodDecl := { name, returns := .named "bool" }

def setKnob (name : String) : MethodDecl := { name, params := [⟨"value", .named "bool"⟩] }

def knobsRoot : InterfaceDecl :=
  { name := "crate::Knobs"
    methods := [knob "r#type", setKnob "set_type", knob "is_dim", setKnob "put_dim"] }

def knobs : World := { declarations := ⟨[knobsRoot]⟩ }

theorem setting_type : Setting "type" := ⟨by decide, fun role => by cases role <;> decide⟩

theorem setting_dim : Setting "dim" := ⟨by decide, fun role => by cases role <;> decide⟩

theorem named_for_setting_knobs : ∃ type setType dim putDim,
    (Walk.ofRoot knobs knobsRoot).outcome.specs = [type, setType, dim, putDim] ∧
    type.key = "r#type" ∧ setType.key = "type" ∧
    .keyAsymmetry "r#type" .putter type.attribution
      ∈ (Walk.ofRoot knobs knobsRoot).outcome.keys.warnings ∧
    (type, setType) ∉ Emit.storedPairs (Walk.ofRoot knobs knobsRoot).outcome.keys ∧
    (dim, putDim) ∈ Emit.storedPairs (Walk.ofRoot knobs knobsRoot).outcome.keys ∧
    ∀ wn ∈ (Walk.ofRoot knobs knobsRoot).outcome.keys.warnings, wn.key ≠ "dim" := by
  obtain ⟨type, setType, dim, putDim, hspecs, htype, hset, hdim, hput⟩ :
      ∃ type setType dim putDim,
        (Walk.ofRoot knobs knobsRoot).outcome.specs = [type, setType, dim, putDim] ∧
        (AccessorSpec.ofMethod none "crate::Knobs" (knob "r#type") = .ok type ∧
          type.role = .getter ∧ type.type = .named "bool" ∧ type.method = "r#type") ∧
        (AccessorSpec.ofMethod none "crate::Knobs" (setKnob "set_type") = .ok setType ∧
          setType.role = .putter ∧ setType.type = .named "bool") ∧
        (AccessorSpec.ofMethod none "crate::Knobs" (knob "is_dim") = .ok dim ∧
          dim.role = .getter ∧ dim.type = .named "bool") ∧
        (AccessorSpec.ofMethod none "crate::Knobs" (setKnob "put_dim") = .ok putDim ∧
          putDim.role = .putter ∧ putDim.type = .named "bool") := by
    rw [Walk.ofRoot_alone rfl]
    exact ⟨_, _, _, _, rfl, ⟨rfl, rfl, rfl, rfl⟩, ⟨rfl, rfl, rfl⟩, ⟨rfl, rfl, rfl⟩, ⟨rfl, rfl, rfl⟩⟩
  have hraw := (named_for_setting "type" setting_type).2.2 knobs knobsRoot true false _ _ _ _ type
    setType ⟨⟨"", by decide, rfl⟩, rfl⟩ ⟨⟨"set_", by decide, rfl⟩, rfl⟩ htype.1 hset.1
    (by simp [hspecs]) (by simp [hspecs]) htype.2.1 hset.2.1 (htype.2.2.1.trans hset.2.2.symm)
  have hplain := (named_for_setting "dim" setting_dim).2.2 knobs knobsRoot false false _ _ _ _ dim
    putDim ⟨⟨"is_", by decide, rfl⟩, rfl⟩ ⟨⟨"put_", by decide, rfl⟩, rfl⟩ hdim.1 hput.1
    (by simp [hspecs]) (by simp [hspecs]) hdim.2.1 hput.2.1 (hdim.2.2.trans hput.2.2.symm)
  have hkey : type.key = "r#type" := hraw.getter_key.trans htype.2.2.2
  refine ⟨type, setType, dim, putDim, hspecs, hkey, hraw.putter_key, ?_, ?_,
    hplain.stored_iff.2 ⟨rfl, rfl⟩, hplain.quiet rfl rfl⟩
  · rw [← hkey]
    refine hraw.noPutter_iff.2 fun e he => ?_
    have hputters : setType.key ≠ type.key ∧ putDim.key ≠ type.key := by
      have hsetKey : setType.key = "type" := hraw.putter_key
      have hputKey : putDim.key = "dim" := hplain.putter_key
      rw [hkey, hsetKey, hputKey]
      decide
    have hgetters : type.role ≠ .putter ∧ dim.role ≠ .putter := by
      rw [htype.2.1, hdim.2.1]
      decide
    rw [hspecs] at he
    simp only [List.mem_cons, List.not_mem_nil, or_false] at he
    rcases he with rfl | rfl | rfl | rfl
    · exact fun hclash => hgetters.1 hclash.1
    · exact fun hclash => hputters.1 hclash.2
    · exact fun hclash => hgetters.2 hclash.1
    · exact fun hclash => hputters.2 hclash.2
  · intro hstored
    exact absurd (hraw.stored_iff.1 hstored).1 (by decide)

end Key

end TypedSettings
