import TypedSettings.Proofs.Unit.Actions
import TypedSettings.Report
import TypedSettings.Store.Host

/-!
Generated code on old platforms. A body runs on a host branch by branch: where it asks for a level,
the host looks up the name and takes one branch (`Stmt.onHost`). On every host from the target's
lowest level on, the statements that run are ones that the platform has, and each editor that is
opened is published once.

* `publish_atLevel`, `readStmt_atLevel`, `writeStmt_atLevel`: what runs of the guarded statements.
* `accessor_runs`, `actions_runs`: what runs of every generated method.
* `unit_congr`: targets with the same guards have the same units.
* `levels_respected`: all of it, with the two ways to keep a set of strings.
-/

namespace TypedSettings

open Source

/-! ## Running on a host -/

namespace Stmt

mutual

/-- The statements that run on a host, which knows levels by their names. -/
def onHost (h : Host) : Stmt → List Stmt
  | gate g above below =>
    if (Host.namedLevel? g.constant).any h.reaches then onHostAll h above else onHostAll h below
  | s => [s]

def onHostAll (h : Host) : List Stmt → List Stmt
  | [] => []
  | s :: rest => onHost h s ++ onHostAll h rest

end

/-- The name that code asks for a gate by stands for the level of the gate. -/
theorem namedLevel?_constant (g : Gate) : Host.namedLevel? g.constant = some g.level := by
  cases g <;> decide

mutual

theorem onHost_eq_atLevel (h : Host) : ∀ s : Stmt, s.onHost h = s.atLevel h.level
  | gate g above below => by
    rw [onHost, atLevel, namedLevel?_constant, Option.any_some, onHostAll_eq_atLevelAll h above,
      onHostAll_eq_atLevelAll h below]
    simp [Host.reaches]
  | openEditor | put .. | putEncoded .. | putSerialized .. | remove .. | removeGiven | clear
  | apply | commit | read .. | readEncoded .. | readSerialized .. | self | delegate ..
  | delegateStmt .. | store .. => by rw [onHost, atLevel] <;> exact fun _ _ _ h => nomatch h

theorem onHostAll_eq_atLevelAll (h : Host) : ∀ body, onHostAll h body = atLevelAll h.level body
  | [] => rfl
  | s :: rest => by
    rw [onHostAll, atLevelAll, onHost_eq_atLevel h s, onHostAll_eq_atLevelAll h rest]

end

/-! ## What a platform has -/

/-- A platform of the level has what the statement calls, and the statement is no fallback that the
level needs no more. -/
def Fits (level : Nat) : Stmt → Prop
  | apply => applyLevel ≤ level
  | commit => level < applyLevel
  | put .stringSet _ _ | read .stringSet _ _ => stringSetLevel ≤ level
  | putEncoded _ _ | readEncoded _ _ => level < stringSetLevel
  | gate _ _ _ => False
  | _ => True

/-- The statement changes what an editor holds. -/
def isChange : Stmt → Bool
  | put .. | putEncoded .. | putSerialized .. | remove .. | removeGiven | clear => true
  | _ => false

/-- The statement publishes what an editor holds. -/
def isPublishing : Stmt → Bool
  | apply | commit => true
  | _ => false

/-- The statement has to do with an editor. -/
def isOfEditor : Stmt → Bool
  | openEditor => true
  | s => s.isChange || s.isPublishing

/-- A body has to do with no editor, or it opens one, changes what it holds, and publishes that
once, at the end. -/
inductive PublishesOnce : List Stmt → Prop
  | without {body : List Stmt} : (∀ s ∈ body, s.isOfEditor = false) → PublishesOnce body
  | once {changes result : List Stmt} {publish : Stmt} :
      changes ≠ [] → (∀ s ∈ changes, s.isChange = true) → publish.isPublishing = true →
      (∀ s ∈ result, s = .self) → PublishesOnce (.openEditor :: (changes ++ publish :: result))

/-- What runs is there on the platform, and publishes each editor once. -/
structure Runs (level : Nat) (body : List Stmt) : Prop where
  fits : ∀ s ∈ body, s.Fits level
  publishes : PublishesOnce body

/-- A body of one statement that has to do with no editor. -/
theorem Runs.singleton {level : Nat} {s : Stmt} (hfits : s.Fits level)
    (hs : s.isOfEditor = false) : Runs level [s] :=
  ⟨fun _ h => List.mem_singleton.1 h ▸ hfits, .without fun _ h => List.mem_singleton.1 h ▸ hs⟩

/-- A body that makes one change and publishes it. -/
theorem Runs.change {level : Nat} {s publish : Stmt} {result : List Stmt} (hs : s.isChange = true)
    (hfits : s.Fits level) (hpublish : publish.isPublishing = true) (hfits' : publish.Fits level)
    (hresult : ∀ r ∈ result, r = .self) :
    Runs level (.openEditor :: ([s] ++ publish :: result)) where
  fits := by
    intro r hr
    simp only [List.singleton_append, List.mem_cons] at hr
    rcases hr with rfl | rfl | rfl | hr
    · trivial
    · exact hfits
    · exact hfits'
    · rw [hresult r hr]
      trivial
  publishes :=
    .once (List.cons_ne_nil _ _) (fun _ h => List.mem_singleton.1 h ▸ hs) hpublish hresult

theorem atLevelAll_append (level : Nat) (a b : List Stmt) :
    atLevelAll level (a ++ b) = atLevelAll level a ++ atLevelAll level b := by
  induction a with
  | nil => rfl
  | cons s a ih => rw [List.cons_append, atLevelAll, ih, atLevelAll, List.append_assoc]

@[simp] theorem atLevelAll_singleton (level : Nat) (s : Stmt) :
    atLevelAll level [s] = s.atLevel level := by
  rw [atLevelAll, atLevelAll, List.append_nil]

end Stmt

/-! ## Generated statements -/

/-- The target promises a level. -/
def Target.Promises (t : Target) (level : Nat) : Prop := ∃ min, t.minLevel = some min ∧ min ≤ level

namespace Emit

open Stmt

variable {t : Target} {level : Nat}

/-- What is not asked for is there. -/
theorem level_le_of_guards (ht : t.Promises level) {g : Gate} (h : t.guards g = false) :
    g.level ≤ level := by
  obtain ⟨min, hmin, hle⟩ := ht
  rw [Target.guards, hmin, Option.any_some, decide_eq_false_iff_not, Nat.not_lt] at h
  exact Nat.le_trans h hle

/-- Of two statements between which code decides by a gate, the first runs where the gate's level is
reached. -/
theorem atLevel_guarded (ht : t.Promises level) (g : Gate) {above below : Stmt}
    (habove : above.atLevel level = [above]) (hbelow : below.atLevel level = [below]) :
    (if t.guards g then Stmt.gate g [above] [below] else above).atLevel level
      = [if g.level ≤ level then above else below] := by
  cases hguards : t.guards g with
  | true =>
    rw [if_pos rfl, atLevel, atLevelAll_singleton, atLevelAll_singleton, habove, hbelow]
    split <;> rfl
  | false =>
    rw [if_neg Bool.false_ne_true, if_pos (level_le_of_guards ht hguards), habove]

theorem publish_atLevel (ht : t.Promises level) :
    (publish t).atLevel level = [if applyLevel ≤ level then .apply else .commit] :=
  atLevel_guarded ht .apply rfl rfl

theorem publish_fits (level : Nat) :
    (if applyLevel ≤ level then Stmt.apply else .commit).Fits level ∧
      (if applyLevel ≤ level then Stmt.apply else .commit).isPublishing = true := by
  split
  · next h => exact ⟨h, rfl⟩
  · next h => exact ⟨Nat.lt_of_not_le h, rfl⟩

/-- What runs to read a getter's value. -/
theorem readStmt_atLevel (ht : t.Promises level) {s : AccessorSpec} {type : List Token}
    {read : Stmt} (h : readStmt s t type = .ok read) :
    ∃ stmt, read.atLevel level = [stmt] ∧ stmt.Fits level ∧ stmt.isOfEditor = false ∧
      (s.kind = .primitive .stringSet → ∃ default, stmt =
        if stringSetLevel ≤ level then .read .stringSet s.key default
        else .readEncoded s.key default) := by
  unfold readStmt at h
  dsimp only at h
  split at h
  · next hkind =>
    have hread : read = if t.guards .stringSet
        then .gate .stringSet
          [.read .stringSet s.key (defaultTokens (s.default.getD s.kind.zeroDefault) s.kind)]
          [.readEncoded s.key (defaultTokens (s.default.getD s.kind.zeroDefault) s.kind)]
        else .read .stringSet s.key
          (defaultTokens (s.default.getD s.kind.zeroDefault) s.kind) := by
      split at h <;> cases h <;> next hg => simp [hg]
    rw [hread]
    refine ⟨_, atLevel_guarded ht .stringSet rfl rfl, ?_, ?_, fun _ => ⟨_, rfl⟩⟩
    · split
      · next hle => exact hle
      · next hlt => exact Nat.lt_of_not_le hlt
    · split <;> rfl
  · next kind hnot hkind =>
    cases h
    refine ⟨_, rfl, ?_, rfl, fun hset => absurd (hkind.symm.trans hset) ?_⟩
    · cases kind with
      | stringSet => exact absurd rfl hnot
      | _ => trivial
    · rintro ⟨⟩
      exact hnot rfl
  · next hkind =>
    obtain ⟨serializer, -, h⟩ := bind_eq_ok.1 h
    cases h
    exact ⟨_, rfl, trivial, rfl, fun hset => nomatch hkind.symm.trans hset⟩

/-- What runs to write a putter's value. -/
theorem writeStmt_atLevel (ht : t.Promises level) {s : AccessorSpec} {param : String}
    {write : Stmt} (h : writeStmt s t param = .ok write) :
    ∃ stmt, write.atLevel level = [stmt] ∧ stmt.Fits level ∧ stmt.isChange = true ∧
      (s.kind = .primitive .stringSet → stmt =
        if stringSetLevel ≤ level then .put .stringSet s.key param
        else .putEncoded s.key param) := by
  unfold writeStmt at h
  split at h
  · have hwrite : write = if t.guards .stringSet
        then .gate .stringSet [.put .stringSet s.key param] [.putEncoded s.key param]
        else .put .stringSet s.key param := by
      split at h <;> cases h <;> next hg => simp [hg]
    rw [hwrite]
    refine ⟨_, atLevel_guarded ht .stringSet rfl rfl, ?_, ?_, fun _ => rfl⟩
    · split
      · next hle => exact hle
      · next hlt => exact Nat.lt_of_not_le hlt
    · split <;> rfl
  · next kind hnot hkind =>
    cases h
    refine ⟨_, rfl, ?_, rfl, fun hset => absurd (hkind.symm.trans hset) ?_⟩
    · cases kind with
      | stringSet => exact absurd rfl hnot
      | _ => trivial
    · rintro ⟨⟩
      exact hnot rfl
  · next hkind =>
    obtain ⟨serializer, -, h⟩ := bind_eq_ok.1 h
    cases h
    exact ⟨_, rfl, trivial, rfl, fun hset => nomatch hkind.symm.trans hset⟩

/-! ## Generated methods -/

/-- What runs of a body that makes a change and publishes it. -/
theorem change_atLevel (ht : t.Promises level) {write stmt : Stmt} (fluent : Bool)
    (hwrite : write.atLevel level = [stmt]) :
    atLevelAll level ([.openEditor, write, publish t] ++ if fluent then [.self] else [])
      = .openEditor :: ([stmt] ++ (if applyLevel ≤ level then Stmt.apply else .commit)
          :: if fluent then [.self] else []) := by
  have hresult : atLevelAll level (if fluent then [.self] else [])
      = if fluent then [.self] else [] := by
    cases fluent <;> rfl
  have hopen : Stmt.openEditor.atLevel level = [.openEditor] := rfl
  rw [atLevelAll_append, hresult, atLevelAll, atLevelAll, atLevelAll_singleton, hopen, hwrite,
    publish_atLevel ht]
  rfl

theorem runs_change (ht : t.Promises level) {write stmt : Stmt} (fluent : Bool)
    (hwrite : write.atLevel level = [stmt]) (hfits : stmt.Fits level)
    (hchange : stmt.isChange = true) :
    Runs level
      (atLevelAll level ([.openEditor, write, publish t] ++ if fluent then [.self] else [])) := by
  rw [change_atLevel ht fluent hwrite]
  refine .change hchange hfits (publish_fits level).2 (publish_fits level).1 ?_
  cases fluent <;> simp

/-- What runs of an accessor is there, and is published once. -/
theorem accessor_runs (ht : t.Promises level) {s : AccessorSpec} {m : GeneratedMethod}
    (h : accessor s t = .ok m) : Runs level (atLevelAll level m.body) := by
  cases hrole : s.role with
  | getter =>
    obtain ⟨-, type, read, -, hread, rfl⟩ := getter_eq_ok hrole h
    obtain ⟨stmt, hstmt, hfits, heditor, -⟩ := readStmt_atLevel ht hread
    rw [atLevelAll_singleton, hstmt]
    exact .singleton hfits heditor
  | putter =>
    obtain ⟨-, -, type, write, -, hwrite, rfl⟩ := putter_eq_ok hrole h
    obtain ⟨stmt, hstmt, hfits, hchange, -⟩ := writeStmt_atLevel ht hwrite
    exact runs_change ht s.isFluent hstmt hfits hchange

theorem clearDefined_runs (ht : t.Promises level) (keys : List String) :
    Runs level (atLevelAll level (clearDefined t keys).body) := by
  unfold clearDefined
  dsimp only
  split
  · exact ⟨fun _ h => (nomatch h), .without fun _ h => nomatch h⟩
  · exact runs_change ht false rfl trivial rfl

/-- Storing what getters read asks for nothing, and opens no editor of its own. -/
theorem initDefaults_runs {k : KeySpace} {init : GeneratedMethod} (h : initDefaults k = .ok init) :
    Runs level (atLevelAll level init.body) := by
  obtain ⟨-, hstores⟩ := initDefaults_eq_ok h
  have hsame : atLevelAll level init.body = init.body := by
    generalize init.body = body, storedPairs k = pairs at hstores
    induction hstores with
    | nil => rfl
    | cons hstore _ ih =>
      obtain ⟨_, _, -, -, rfl⟩ := hstore
      rw [atLevelAll, ih]
      rfl
  have hstore : ∀ s ∈ init.body, ∃ pt p gt g, s = .store pt p gt g := by
    intro s hs
    obtain ⟨pair, -, pt, gt, -, -, rfl⟩ := exists_of_forall₂ hstores.flip hs
    exact ⟨_, _, _, _, rfl⟩
  rw [hsame]
  constructor
  case fits =>
    intro s hs
    obtain ⟨_, _, _, _, rfl⟩ := hstore s hs
    trivial
  case publishes =>
    refine .without fun s hs => ?_
    obtain ⟨_, _, _, _, rfl⟩ := hstore s hs
    rfl

/-- What runs of an action is there, and is published once. -/
theorem actions_runs (ht : t.Promises level) {k : KeySpace} {methods : List GeneratedMethod}
    (h : actions t k = .ok methods) :
    ∀ m ∈ methods, Runs level (atLevelAll level m.body) := by
  obtain ⟨init, hinit, rfl⟩ := actions_eq_ok h
  have hread {s : Stmt} (hsame : s.atLevel level = [s]) (hfits : s.Fits level)
      (hs : s.isOfEditor = false) : Runs level (atLevelAll level [s]) := by
    rw [atLevelAll_singleton, hsame]
    exact .singleton hfits hs
  simp only [fixedActions, List.cons_append, List.nil_append, List.forall_mem_cons,
    List.not_mem_nil, false_implies, implies_true, and_true]
  refine ⟨hread rfl trivial rfl, hread rfl trivial rfl, runs_change ht false rfl trivial rfl,
    hread rfl trivial rfl, hread rfl trivial rfl, runs_change ht false rfl trivial rfl,
    clearDefined_runs ht _, initDefaults_runs hinit⟩

/-! ## Targets with the same guards -/

/-- The targets ask for the same gates, and have one serializer. -/
structure Alike (t t' : Target) : Prop where
  guards : ∀ g, t.guards g = t'.guards g
  serializer : t.serializer = t'.serializer

variable {t' : Target}

theorem publish_congr (h : Alike t t') : publish t = publish t' := by
  rw [publish, publish, h.guards]

theorem serializerName_congr (h : Alike t t') : serializerName t = serializerName t' := by
  rw [serializerName, serializerName, h.serializer]

theorem accessor_congr (h : Alike t t') (s : AccessorSpec) : accessor s t = accessor s t' := by
  have hread : readStmt s t = readStmt s t' := by
    funext type
    simp only [readStmt, h.guards, serializerName_congr h]
  have hwrite : writeStmt s t = writeStmt s t' := by
    funext param
    simp only [writeStmt, h.guards, serializerName_congr h]
  simp only [accessor, getter, putter, hread, hwrite, publish_congr h]

theorem actions_congr (h : Alike t t') (k : KeySpace) : actions t k = actions t' k := by
  simp only [actions, fixedActions, clearDefined, publish_congr h]

theorem unitImports_congr (h : Alike t t') (store : StoreConfig) (specs : List AccessorSpec) :
    unitImports t store specs = unitImports t' store specs := by
  have hpublish : publishImports t = publishImports t' := by
    rw [publishImports, publishImports, h.guards]
  have haccessor (s : AccessorSpec) : accessorImports s t = accessorImports s t' := by
    simp only [accessorImports, kindImports, serializerImports, h.guards, h.serializer, hpublish]
  simp only [unitImports, haccessor, hpublish]

theorem unit_congr (h : Alike t t') (root : InterfaceDecl) (walk : Walk) :
    unit t root walk = unit t' root walk := by
  have himpl : impl t walk.outcome.specs = impl t' walk.outcome.specs := by
    funext interface
    simp only [impl, accessor_congr h]
  simp only [unit, himpl, actions_congr h, unitImports_congr h]

/-- From the highest level on that a gate asks for, no gate is asked for. -/
theorem alike_unset {min : Nat} (hmin : t.minLevel = some min) (hle : stringSetLevel ≤ min) :
    Alike t { t with minLevel := none } where
  guards g := by
    have hg : g.level ≤ min := by
      cases g
      · exact Nat.le_trans (by decide) hle
      · exact hle
    rw [Target.guards, Target.guards, hmin]
    simpa using hg
  serializer := rfl

/-! ## Targets with a lowest level -/

/-- For a target with a lowest level, on every host from that level on: what runs of an accessor or
an action is there on the platform, and publishes each editor once; getter and putter of a set of
strings both keep it as it is, or both as text. From the highest level on that a gate asks for, a
target has the units of a target without a level. -/
theorem levels_respected (t : Target) (min : Nat) (hmin : t.minLevel = some min) :
    (∀ h : Host, min ≤ h.level →
      (∀ s m, accessor s t = .ok m → Runs h.level (onHostAll h m.body)) ∧
      (∀ k methods, actions t k = .ok methods →
        ∀ m ∈ methods, Runs h.level (onHostAll h m.body)) ∧
      ∀ g p gm pm, g.role = .getter → p.role = .putter → g.kind = .primitive .stringSet →
        p.kind = .primitive .stringSet → accessor g t = .ok gm → accessor p t = .ok pm →
        ∃ default param publish result,
          (11 ≤ h.level ∧ onHostAll h gm.body = [.read .stringSet g.key default] ∧
            onHostAll h pm.body = .openEditor :: .put .stringSet p.key param :: publish :: result) ∨
          (h.level < 11 ∧ onHostAll h gm.body = [.readEncoded g.key default] ∧
            onHostAll h pm.body = .openEditor :: .putEncoded p.key param :: publish :: result)) ∧
    (11 ≤ min → ∀ w root,
      unit t root (Walk.ofRoot w root) = unit { t with minLevel := none } root (Walk.ofRoot w root) ∧
      UnitReport.ofRoot w t root = UnitReport.ofRoot w { t with minLevel := none } root) := by
  refine ⟨?_, ?_⟩
  · intro h hle
    have ht : t.Promises h.level := ⟨min, hmin, hle⟩
    simp only [onHostAll_eq_atLevelAll]
    refine ⟨fun s m => accessor_runs ht, fun k methods => actions_runs ht, ?_⟩
    intro g p gm pm hgrole hprole hgkind hpkind hgm hpm
    obtain ⟨-, type, read, -, hread, rfl⟩ := getter_eq_ok hgrole hgm
    obtain ⟨stmt, hstmt, -, -, hset⟩ := readStmt_atLevel ht hread
    obtain ⟨default, rfl⟩ := hset hgkind
    obtain ⟨-, -, type', write, -, hwrite, rfl⟩ := putter_eq_ok hprole hpm
    obtain ⟨stmt', hstmt', -, -, hset'⟩ := writeStmt_atLevel ht hwrite
    obtain rfl := hset' hpkind
    refine ⟨default, p.param.getD "value", if applyLevel ≤ h.level then .apply else .commit,
      if p.isFluent then [.self] else [], ?_⟩
    rw [atLevelAll_singleton, hstmt, change_atLevel ht p.isFluent hstmt']
    by_cases hlevel : 11 ≤ h.level
    · have hnative : stringSetLevel ≤ h.level := hlevel
      rw [if_pos hnative, if_pos hnative]
      exact .inl ⟨hlevel, rfl, rfl⟩
    · have htext : ¬stringSetLevel ≤ h.level := hlevel
      rw [if_neg htext, if_neg htext]
      exact .inr ⟨Nat.lt_of_not_le hlevel, rfl, rfl⟩
  · intro hle w root
    have hunit := unit_congr (alike_unset hmin hle) root (Walk.ofRoot w root)
    refine ⟨hunit, ?_⟩
    rw [UnitReport.ofRoot, UnitReport.ofRoot, hunit]

/-! A set of strings on a platform that can publish without waiting, and has no sets. -/

def tagsType : TypeRef := .path ["HashSet"] [.path ["String"] []]

def tagsAccessor (role : Role) (method : String) : AccessorSpec :=
  { key := "tags", role, kind := .primitive .stringSet, type := tagsType
    hasExplicitDefault := false, default := none, interface := "crate::Notes", method
    param := some "tags", returns := .unit, isFluent := false, location := none }

def froyo : Target := { minLevel := some 8 }

theorem tags_evaluated :
    (accessor (tagsAccessor .getter "tags") froyo).isOk = true ∧
    (accessor (tagsAccessor .putter "set_tags") froyo).isOk = true := by
  decide +kernel

theorem levels_respected_tags : ∃ gm pm default param publish result,
    froyo.minLevel = some 8 ∧ (8 : Nat) ≤ ({ level := 10 } : Host).level ∧
    accessor (tagsAccessor .getter "tags") froyo = .ok gm ∧
    accessor (tagsAccessor .putter "set_tags") froyo = .ok pm ∧
    onHostAll { level := 10 } gm.body = [.readEncoded "tags" default] ∧
    onHostAll { level := 10 } pm.body
      = .openEditor :: .putEncoded "tags" param :: publish :: result ∧
    Runs 10 (onHostAll { level := 10 } pm.body) := by
  obtain ⟨hgok, hpok⟩ := tags_evaluated
  obtain ⟨gm, hgm⟩ := exists_of_isOk hgok
  obtain ⟨pm, hpm⟩ := exists_of_isOk hpok
  have hle : (8 : Nat) ≤ ({ level := 10 } : Host).level := by decide
  obtain ⟨haccessor, -, hset⟩ := (levels_respected froyo 8 rfl).1 { level := 10 } hle
  obtain ⟨default, param, publish, result, ⟨hlevel, -⟩ | ⟨-, hread, hwrite⟩⟩ :=
    hset _ _ gm pm rfl rfl rfl rfl hgm hpm
  · exact absurd hlevel (by decide)
  · exact ⟨gm, pm, default, param, publish, result, rfl, hle, hgm, hpm, hread, hwrite,
      haccessor _ pm hpm⟩

end Emit

end TypedSettings
