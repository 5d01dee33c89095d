import TypedSettings.Proofs.Store.Replay
import TypedSettings.Proofs.Store.SetText
import TypedSettings.Proofs.Unit.Variables

/-!
Generated accessors at work. On a host with a store a getter gives a value and a putter publishes a
change. What is under a key then is the value itself, or its text where the generated code asks for
sets of strings and the host has none. Code that keeps sets one way and code that keeps them the
other way do not read each other.

* `GeneratedMethod.reads?`, `GeneratedMethod.writes?`: what runs of an accessor on a store.
* `getter_reads`, `putter_writes`: a getter is one read, and a putter publishes one put.
* `reading_kept`: what is kept is read again, by code that keeps it the same way.
* `string_sets_read_back`: what becomes of a set of strings from one platform level to another.
-/

namespace TypedSettings

open Source

/-! ## Values by their kinds -/

namespace StoredValue

def kind : StoredValue → StoreKind
  | bool _ => .boolean
  | int _ => .int
  | long _ => .long
  | float _ => .float
  | string _ => .string
  | set _ => .stringSet

/-- A value that code can have. A set is held by its members in order, each once. -/
def Proper : StoredValue → Prop
  | set members => Text.Sorted.ofList members = members
  | _ => True

theorem proper_ofTexts (texts : List String) : (ofTexts texts).Proper :=
  Text.Sorted.ofList_ofList texts

/-- The form in which a value is kept: a set may be kept as its text. -/
def kept (asText : Bool) : StoredValue → StoredValue
  | set members => if asText then string (SetText.encode members) else set members
  | v => v

@[simp] theorem kept_false (v : StoredValue) : v.kept false = v := by
  cases v <;> rfl

theorem kept_eq_float {asText : Bool} {v : StoredValue} {x : Single}
    (h : v.kept asText = .float x) : v = .float x := by
  cases v with
  | set members =>
    rw [kept] at h
    split at h <;> cases h
  | bool _ | int _ | long _ | float _ | string _ => exact h

/-- Every value but a float that is no number is the same as itself. -/
theorem same_self {v : StoredValue} (h : ∀ x, v = float x → x.isNaN = false) :
    v.same v = true := by
  cases v with
  | float x => simp [same, Single.same, h x rfl]
  | bool _ | int _ | long _ | string _ | set _ => simp [same]

end StoredValue

/-! ## One read, one put -/

namespace Store

/-- What the method gives that reads a kind of values, if it gets a default of the kind. -/
def read? (s : Store) (key : String) : StoreKind → StoredValue → Option StoredValue
  | .boolean, .bool default => some (.bool (s.getBool key default))
  | .int, .int default => some (.int (s.getInt key default))
  | .long, .long default => some (.long (s.getLong key default))
  | .float, .float default => some (.float (s.getFloat key default))
  | .string, .string default => some (.string (s.getString key default))
  | .stringSet, .set default => some (.set (s.getSet key default))
  | _, _ => none

/-- The value under a key where it is of the default's kind, and else the default. -/
def valueOr (s : Store) (key : String) (default : StoredValue) : StoredValue :=
  match s.get? key with
  | some v => if v.kind = default.kind then v else default
  | none => default

theorem read?_eq (s : Store) (key : String) (default : StoredValue) :
    s.read? key default.kind default = some (s.valueOr key default) := by
  cases default <;>
  · simp only [StoredValue.kind, read?, getBool, getInt, getLong, getFloat, getString, getSet, typed,
      valueOr]
    cases s.get? key with
    | none => rfl
    | some v => cases v <;> rfl

/-- Publishes one put. -/
def putOne (s : Store) (key : String) (value : StoredValue) : Store × List Event :=
  s.publish (Editor.ofBatch [.put key value])

theorem putOne_entries (s : Store) (key : String) (value : StoredValue) :
    (s.putOne key value).1.entries = (change s.entries (.put key value)).1 := rfl

theorem putOne_listeners (s : Store) (key : String) (value : StoredValue) :
    (s.putOne key value).1.listeners = s.listeners := rfl

theorem get?_putOne_other (s : Store) {key other : String} (value : StoredValue)
    (h : other ≠ key) : (s.putOne key value).1.get? other = s.get? other :=
  change_other s.entries (.put key value) h

/-- A put that leaves no other value in place leaves the value. -/
theorem get?_putOne {s : Store} {key : String} {value : StoredValue}
    (h : ∀ old, s.get? key = some old → old.same value = true → old = value) :
    (s.putOne key value).1.get? key = some value := by
  have hc := changed s.entries (.put key value)
  rw [get?, putOne_entries]
  generalize change s.entries (.put key value) = r at hc
  cases hc with
  | kept hold hsame => exact hold.trans (congrArg some (h _ hold hsame))
  | put _ => exact (Entries.get?_insert _ _ _ _).trans (if_pos rfl)

/-- To put what is there already does nothing, and nobody hears of it. -/
theorem putOne_eq_self {s : Store} {key : String} {value : StoredValue}
    (h : s.get? key = some value) (hsame : value.same value = true) :
    s.putOne key value = (s, []) := by
  have hchange : change s.entries (.put key value) = (s.entries, []) := by
    have hget : s.entries.get? key = some value := h
    rw [change, hget]
    exact if_pos hsame
  show s.publish ⟨false, [.put key value]⟩ = (s, [])
  simp only [publish, replay, changeAll, hchange]
  rfl

/-- What a getter reads of a store in which a value is kept as it is, or a set as its text. -/
def reading (asText : Bool) (s : Store) (key : String) (default : StoredValue) : StoredValue :=
  if asText then ((SetText.decode? (s.getString key "")).map .set).getD default
  else s.valueOr key default

theorem reading_congr {s s' : Store} {key : String} (h : s'.get? key = s.get? key) (asText : Bool)
    (default : StoredValue) : s'.reading asText key default = s.reading asText key default := by
  rw [reading, reading, getString, getString, typed, typed, valueOr, valueOr, h]

theorem getString_eq {s : Store} {key text : String} (h : s.get? key = some (.string text))
    (default : String) : s.getString key default = text := by
  rw [getString, typed, h]
  rfl

section Reading

variable {s : Store} {key : String} {v default : StoredValue} {asText : Bool}

/-- What is kept under a key is read by code that keeps it the same way. -/
theorem reading_kept (hget : s.get? key = some (v.kept asText)) (hkind : v.kind = default.kind)
    (htext : asText = true → v.kind = .stringSet ∧ v.Proper) :
    s.reading asText key default = v := by
  cases asText with
  | false =>
    rw [StoredValue.kept_false] at hget
    rw [reading, if_neg Bool.false_ne_true, valueOr, hget]
    exact if_pos hkind
  | true =>
    obtain ⟨hset, hproper⟩ := htext rfl
    cases v with
    | set members =>
      rw [reading, if_pos rfl, getString_eq hget, SetText.decode?_encode, hproper]
      rfl
    | bool _ | int _ | long _ | float _ | string _ => cases hset

/-- A set that is kept one way is no set to code that keeps sets the other way. -/
theorem reading_kept_other (hget : s.get? key = some (v.kept asText)) (hv : v.kind = .stringSet)
    (hdefault : default.kind = .stringSet) : s.reading (!asText) key default = default := by
  cases v with
  | set members =>
    cases asText with
    | true =>
      have hstored : s.get? key = some (.string (SetText.encode members)) := hget
      rw [Bool.not_true, reading, if_neg Bool.false_ne_true, valueOr, hstored, hdefault]
      exact if_neg nofun
    | false =>
      have hstored : s.get? key = some (.set members) := hget
      have htext : s.getString key "" = "" := by
        rw [getString, typed, hstored]
        rfl
      have hnone : SetText.decode? "" = none := by decide +kernel
      rw [Bool.not_false, reading, if_pos rfl, htext, hnone]
      rfl
  | bool _ | int _ | long _ | float _ | string _ => cases hv

/-- What is read is of the default's kind. Where the same is there already, in the form in which it
would be kept, it is that very value. -/
theorem reading_spec (s : Store) (key : String) (hdefault : default.Proper)
    (htext : asText = true → default.kind = .stringSet) :
    (s.reading asText key default).kind = default.kind ∧
      (asText = true → (s.reading asText key default).Proper) ∧
      ∀ old, s.get? key = some old → old.same ((s.reading asText key default).kept asText) = true →
        old = (s.reading asText key default).kept asText := by
  cases asText with
  | false =>
    rw [StoredValue.kept_false, reading, if_neg Bool.false_ne_true, valueOr]
    refine ⟨?_, nofun, ?_⟩
    · split
      · split
        · next hkind => exact hkind
        · rfl
      · rfl
    · intro old hold hsame
      rw [hold] at hsame ⊢
      dsimp only at hsame ⊢
      split at hsame
      · next hkind => rw [if_pos hkind]
      · next hkind =>
        rw [if_neg hkind]
        rcases StoredValue.same_cases hsame with rfl | ⟨x, y, rfl, rfl, -⟩
        · rfl
        · exact absurd rfl hkind
  | true =>
    have hset := htext rfl
    have hread : ∃ members, Text.Sorted.ofList members = members ∧
        s.reading true key default = .set members := by
      rw [reading, if_pos rfl]
      cases hdecode : SetText.decode? (s.getString key "") with
      | some read =>
        obtain ⟨members, rfl⟩ := SetText.decode?_eq_ofList hdecode
        exact ⟨_, Text.Sorted.ofList_ofList members, rfl⟩
      | none =>
        cases default with
        | set members => exact ⟨members, hdefault, rfl⟩
        | bool _ | int _ | long _ | float _ | string _ => cases hset
    obtain ⟨members, hproper, hread⟩ := hread
    rw [hread, hset]
    refine ⟨rfl, fun _ => hproper, fun old _ hsame => ?_⟩
    rcases StoredValue.same_cases hsame with rfl | ⟨x, y, -, hfloat, -⟩
    · rfl
    · cases hfloat

end Reading

end Store

/-! ## Running an accessor -/

namespace Stmt

/-- What a statement that reads gives, with a value for its default. -/
def value? (s : Store) (default : StoredValue) : Stmt → Option StoredValue
  | read kind key _ => s.read? key kind default
  | readEncoded key _ =>
    match default with
    | .set members => some (.set ((SetText.decode? (s.getString key "")).getD members))
    | _ => none
  | _ => none

/-- What a statement that writes asks its editor for, with a value for its parameter. -/
def edit? (argument : StoredValue) : Stmt → Option EditCall
  | put kind key _ => if argument.kind = kind then some (.put key argument) else none
  | putEncoded key _ =>
    match argument with
    | .set members => some (.put key (.string (SetText.encode members)))
    | _ => none
  | _ => none

/-- How far a body has come: the store, the editor that is open, and what was heard. -/
structure Progress where
  store : Store
  editor : Option Editor := none
  heard : List Event := []

/-- One statement of a putter, with a value for its parameter. -/
def run (argument : StoredValue) (p : Progress) : Stmt → Option Progress
  | openEditor => some { p with editor := some {} }
  | apply | commit => p.editor.map fun editor =>
      { store := (p.store.publish editor).1, heard := p.heard ++ (p.store.publish editor).2 }
  | self => some p
  | s => (s.edit? argument).bind fun call =>
      p.editor.map fun editor => { p with editor := some (editor.call call) }

theorem run_edit {argument : StoredValue} {stmt : Stmt} {call : EditCall}
    (h : stmt.edit? argument = some call) (p : Progress) :
    run argument p stmt
      = p.editor.map fun editor => { p with editor := some (editor.call call) } := by
  cases stmt with
  | put kind key param =>
    rw [run, h]
    · rfl
    all_goals nofun
  | putEncoded key param =>
    rw [run, h]
    · rfl
    all_goals nofun
  | _ => cases h

end Stmt

namespace GeneratedMethod

/-- What a getter gives on a host with a store, with a value for its default. -/
def reads? (m : GeneratedMethod) (host : Host) (s : Store) (default : StoredValue) :
    Option StoredValue :=
  match Stmt.onHostAll host m.body with
  | [stmt] => stmt.value? s default
  | _ => none

/-- What a putter makes of a store on a host, and what is heard. -/
def writes? (m : GeneratedMethod) (host : Host) (s : Store) (argument : StoredValue) :
    Option (Store × List Event) :=
  ((Stmt.onHostAll host m.body).foldlM (Stmt.run argument) { store := s }).map fun p =>
    (p.store, p.heard)

end GeneratedMethod

namespace Emit

open Stmt

variable {t : Target} {s : AccessorSpec} {m : GeneratedMethod} {kind : StoreKind}

/-- Whether generated code keeps values of a kind as text on a host. -/
def keepsText (t : Target) (host : Host) (kind : StoreKind) : Bool :=
  kind == .stringSet && t.guards .stringSet && !host.reaches stringSetLevel

theorem kind_of_keepsText {host : Host} (h : keepsText t host kind = true) : kind = .stringSet := by
  rw [keepsText, Bool.and_eq_true, Bool.and_eq_true, beq_iff_eq] at h
  exact h.1.1

/-- A statement for which generated code has a fallback where the host lacks sets of strings. -/
theorem onHost_stringSet (t : Target) (host : Host) (above below : Stmt)
    (habove : above.onHost host = [above]) (hbelow : below.onHost host = [below]) :
    (if t.guards .stringSet then Stmt.gate .stringSet [above] [below] else above).onHost host
      = [if keepsText t host .stringSet then below else above] := by
  rw [keepsText, beq_self_eq_true, Bool.true_and]
  cases t.guards .stringSet with
  | false => exact habove
  | true =>
    rw [if_pos rfl, onHost, onHostAll, onHostAll, onHostAll, onHostAll, habove, hbelow,
      namedLevel?_constant, Option.any_some, Bool.true_and]
    show (if host.reaches stringSetLevel = true then _ else _) = _
    cases host.reaches stringSetLevel <;> rfl

theorem onHostAll_singleton (host : Host) (stmt : Stmt) :
    onHostAll host [stmt] = stmt.onHost host := by
  rw [onHostAll, onHostAll, List.append_nil]

/-- What runs of a getter: one read. -/
theorem getter_onHost (hrole : s.role = .getter) (hkind : s.kind = .primitive kind)
    (h : accessor s t = .ok m) (host : Host) :
    ∃ default, onHostAll host m.body
      = [if keepsText t host kind then .readEncoded s.key default
          else .read kind s.key default] := by
  obtain ⟨-, type, read, -, hread, rfl⟩ := getter_eq_ok hrole h
  rw [onHostAll_singleton]
  unfold readStmt at hread
  rw [hkind] at hread
  cases kind with
  | stringSet =>
    refine ⟨_, Eq.trans (congrArg (onHost host) ?_) (onHost_stringSet t host
      (.read .stringSet s.key (defaultTokens (s.default.getD s.kind.zeroDefault) s.kind))
      (.readEncoded s.key (defaultTokens (s.default.getD s.kind.zeroDefault) s.kind)) rfl rfl)⟩
    rw [hkind]
    dsimp only at hread
    split at hread <;> cases hread <;> next hguards => simp [hguards]
  | boolean | int | long | float | string =>
    cases hread
    exact ⟨_, rfl⟩

/-- What runs of a putter: one put, and its publication. -/
theorem putter_onHost (hrole : s.role = .putter) (hkind : s.kind = .primitive kind)
    (h : accessor s t = .ok m) (host : Host) :
    ∃ param publish, (publish = .apply ∨ publish = .commit) ∧
      onHostAll host m.body = .openEditor
        :: (if keepsText t host kind then .putEncoded s.key param else .put kind s.key param)
        :: publish :: if s.isFluent then [.self] else [] := by
  obtain ⟨-, -, type, write, -, hwrite, rfl⟩ := putter_eq_ok hrole h
  generalize s.param.getD "value" = param at hwrite
  have hself : onHostAll host (if s.isFluent then [.self] else [])
      = if s.isFluent then [.self] else [] := by
    cases s.isFluent <;> rfl
  have hput : write.onHost host
      = [if keepsText t host kind then .putEncoded s.key param else .put kind s.key param] := by
    unfold writeStmt at hwrite
    rw [hkind] at hwrite
    cases kind with
    | stringSet =>
      refine Eq.trans (congrArg (onHost host) ?_) (onHost_stringSet t host
        (.put .stringSet s.key param) (.putEncoded s.key param) rfl rfl)
      dsimp only at hwrite
      split at hwrite <;> cases hwrite <;> next hguards => simp [hguards]
    | boolean | int | long | float | string =>
      cases hwrite
      rfl
  have hbodies : onHostAll host
      ([.openEditor, write, publish t] ++ if s.isFluent then [.self] else [])
      = .openEditor :: (write.onHost host
        ++ ((publish t).onHost host ++ onHostAll host (if s.isFluent then [.self] else []))) := rfl
  rw [hbodies, hput, hself]
  rcases onHost_guarded host (t.guards .apply) .apply .apply .commit rfl rfl with hrun | hrun
  · exact ⟨param, .apply, .inl rfl, by rw [publish, hrun]; rfl⟩
  · exact ⟨param, .commit, .inr rfl, by rw [publish, hrun]; rfl⟩

/-- A getter reads its key, in the form in which its code keeps values on the host. -/
theorem getter_reads (hrole : s.role = .getter) (hkind : s.kind = .primitive kind)
    (h : accessor s t = .ok m) (host : Host) (store : Store) {default : StoredValue}
    (hdefault : default.kind = kind) :
    m.reads? host store default
      = some (store.reading (keepsText t host kind) s.key default) := by
  obtain ⟨tokens, hbody⟩ := getter_onHost hrole hkind h host
  rw [GeneratedMethod.reads?, hbody]
  cases htext : keepsText t host kind with
  | false =>
    rw [Store.reading, if_neg Bool.false_ne_true, ← hdefault]
    exact store.read?_eq s.key default
  | true =>
    rw [kind_of_keepsText htext] at hdefault
    cases default with
    | set members =>
      rw [Store.reading, if_pos rfl]
      show some (StoredValue.set _) = _
      cases SetText.decode? (store.getString s.key "") <;> rfl
    | bool _ | int _ | long _ | float _ | string _ => cases hdefault

/-- A putter publishes one put of its key, in the form in which its code keeps values on the
host. -/
theorem putter_writes (hrole : s.role = .putter) (hkind : s.kind = .primitive kind)
    (h : accessor s t = .ok m) (host : Host) (store : Store) {v : StoredValue}
    (hv : v.kind = kind) :
    m.writes? host store v = some (store.putOne s.key (v.kept (keepsText t host kind))) := by
  obtain ⟨param, publish, hpublish, hbody⟩ := putter_onHost hrole hkind h host
  have hedit : Stmt.edit? v
      (if keepsText t host kind then .putEncoded s.key param else .put kind s.key param)
        = some (.put s.key (v.kept (keepsText t host kind))) := by
    cases htext : keepsText t host kind with
    | false =>
      rw [StoredValue.kept_false]
      exact if_pos hv
    | true =>
      rw [kind_of_keepsText htext] at hv
      cases v with
      | set members => rfl
      | bool _ | int _ | long _ | float _ | string _ => cases hv
  have hself : ∀ p : Progress,
      (if s.isFluent then [Stmt.self] else []).foldlM (Stmt.run v) p = some p := by
    intro p
    cases s.isFluent <;> rfl
  rw [GeneratedMethod.writes?, hbody]
  show (((Stmt.run v _ _).bind fun p => (Stmt.run v p publish).bind fun p =>
    List.foldlM (Stmt.run v) p _)).map _ = _
  rw [run_edit hedit]
  rcases hpublish with rfl | rfl
  · exact congrArg (Option.map _) (hself _)
  · exact congrArg (Option.map _) (hself _)

/-! ## From one platform level to another -/

theorem keepsText_of_lt {min : Nat} (hmin : t.minLevel = some min) (hlow : min < 11) (host : Host) :
    keepsText t host .stringSet = true ↔ ¬11 ≤ host.level := by
  have hguards : t.guards .stringSet = true := by
    rw [Target.guards, hmin]
    exact decide_eq_true hlow
  have hreaches : host.reaches stringSetLevel = decide (11 ≤ host.level) := rfl
  rw [keepsText, hguards, hreaches]
  simp

/-- What a set of strings leaves in the store where it was written. -/
theorem get?_of_set_written (store : Store) (key : String) (asText : Bool) (members : List String) :
    (store.putOne key ((StoredValue.ofTexts members).kept asText)).1.get? key
      = some ((StoredValue.ofTexts members).kept asText) := by
  refine Store.get?_putOne fun old _ hsame => ?_
  rcases StoredValue.same_cases hsame with rfl | ⟨x, y, -, hfloat, -⟩
  · rfl
  · cases StoredValue.kept_eq_float hfloat

/-- For a target below the level of sets, on whatever platform levels getter and putter of a key
run: a set of strings that is written is read back if both levels have sets or neither has. Where
the platform got sets in between, the text of the set is still there, and the getter reads its
default. -/
theorem string_sets_read_back {min : Nat} (hmin : t.minLevel = some min) (hlow : min < 11)
    {g p : AccessorSpec} {gm pm : GeneratedMethod} (hgrole : g.role = .getter)
    (hprole : p.role = .putter) (hgkind : g.kind = .primitive .stringSet)
    (hpkind : p.kind = .primitive .stringSet) (hkey : g.key = p.key)
    (hgm : accessor g t = .ok gm) (hpm : accessor p t = .ok pm) (first second : Host)
    (before : Store) (members default : List String) :
    ∃ after heard, pm.writes? first before (.ofTexts members) = some (after, heard) ∧
      after.get? p.key = some (if 11 ≤ first.level then .ofTexts members
        else .string (SetText.encode (Text.Sorted.ofList members))) ∧
      gm.reads? second after (.ofTexts default)
        = some (.ofTexts (if 11 ≤ first.level ↔ 11 ≤ second.level then members else default)) := by
  have hfirst := keepsText_of_lt hmin hlow first
  have hsecond := keepsText_of_lt hmin hlow second
  have hwrites := putter_writes hprole hpkind hpm first before (v := .ofTexts members) rfl
  have hstored := get?_of_set_written before p.key (keepsText t first .stringSet) members
  generalize before.putOne p.key _ = after at hwrites hstored
  refine ⟨after.1, after.2, hwrites, ?_, ?_⟩
  · rw [hstored]
    by_cases hlevel : 11 ≤ first.level
    · rw [if_pos hlevel, Bool.eq_false_iff.2 fun htext => hfirst.1 htext hlevel,
        StoredValue.kept_false]
    · rw [if_neg hlevel, hfirst.2 hlevel]
      rfl
  · rw [getter_reads hgrole hgkind hgm second _ rfl, hkey]
    by_cases hsame : 11 ≤ first.level ↔ 11 ≤ second.level
    · have hway : keepsText t second .stringSet = keepsText t first .stringSet := by
        rw [Bool.eq_iff_iff, hfirst, hsecond, hsame]
      have hread : after.1.reading (keepsText t first .stringSet) p.key (.ofTexts default)
          = .ofTexts members :=
        Store.reading_kept hstored rfl fun _ => ⟨rfl, StoredValue.proper_ofTexts members⟩
      rw [if_pos hsame, hway, hread]
    · have hway : keepsText t second .stringSet = !keepsText t first .stringSet := by
        rw [Bool.eq_iff_iff, Bool.not_eq_true', ← Bool.not_eq_true, hfirst, hsecond]
        tauto
      have hread : after.1.reading (!keepsText t first .stringSet) p.key (.ofTexts default)
          = .ofTexts default :=
        Store.reading_kept_other hstored rfl rfl
      rw [if_neg hsame, hway, hread]

/-! The tags of `levels_respected_tags`, on a platform without sets of strings and on the next
one. -/

theorem string_sets_read_back_tags : ∃ gm pm after heard,
    accessor (tagsAccessor .getter "tags") froyo = .ok gm ∧
    accessor (tagsAccessor .putter "set_tags") froyo = .ok pm ∧
    froyo.minLevel = some 8 ∧ (8 : Nat) < 11 ∧
    pm.writes? { level := 10 } {} (.ofTexts ["rock", "jazz"]) = some (after, heard) ∧
    after.get? "tags" = some (.string "[\"jazz\",\"rock\"]") ∧
    gm.reads? { level := 10 } after (.ofTexts []) = some (.ofTexts ["rock", "jazz"]) ∧
    gm.reads? { level := 11 } after (.ofTexts []) = some (.ofTexts []) := by
  obtain ⟨hgok, hpok⟩ := tags_evaluated
  obtain ⟨gm, hgm⟩ := exists_of_isOk hgok
  obtain ⟨pm, hpm⟩ := exists_of_isOk hpok
  have hboth (second : Host) := @string_sets_read_back froyo 8 rfl (by decide)
    (tagsAccessor .getter "tags") (tagsAccessor .putter "set_tags") gm pm rfl rfl rfl rfl rfl hgm hpm
    { level := 10 } second {} ["rock", "jazz"] []
  obtain ⟨after, heard, hwrites, hstored, hsame⟩ := hboth { level := 10 }
  obtain ⟨after', heard', hwrites', -, hother⟩ := hboth { level := 11 }
  obtain ⟨rfl, rfl⟩ := Prod.mk.inj (Option.some.inj (hwrites.symm.trans hwrites'))
  have htext : SetText.encode (Text.Sorted.ofList ["rock", "jazz"]) = "[\"jazz\",\"rock\"]" := by
    decide +kernel
  rw [htext] at hstored
  exact ⟨gm, pm, after, heard, hgm, hpm, rfl, by decide, hwrites, hstored, hsame, hother⟩

/-- The getter that runs on a platform with sets of strings has no use for the text that the putter
left before the platform had them. -/
theorem string_sets_lost : ∃ gm pm after heard,
    accessor (tagsAccessor .getter "tags") froyo = .ok gm ∧
    accessor (tagsAccessor .putter "set_tags") froyo = .ok pm ∧
    froyo.minLevel = some 8 ∧ (8 : Nat) ≤ 10 ∧ (10 : Nat) ≤ 11 ∧
    pm.writes? { level := 10 } {} (.ofTexts ["rock"]) = some (after, heard) ∧
    gm.reads? { level := 11 } after (.ofTexts []) ≠ some (.ofTexts ["rock"]) := by
  obtain ⟨hgok, hpok⟩ := tags_evaluated
  obtain ⟨gm, hgm⟩ := exists_of_isOk hgok
  obtain ⟨pm, hpm⟩ := exists_of_isOk hpok
  have hwrites := @putter_writes froyo _ pm .stringSet rfl rfl hpm { level := 10 } {}
    (.ofTexts ["rock"]) rfl
  refine ⟨gm, pm, _, _, hgm, hpm, rfl, by decide, by decide, hwrites, ?_⟩
  rw [@getter_reads froyo _ gm .stringSet rfl rfl hgm { level := 11 } _ (.ofTexts []) rfl]
  decide +kernel

end Emit

end TypedSettings
