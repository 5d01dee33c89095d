import TypedSettings.Proofs.Accessor.Pairs
import TypedSettings.Proofs.Interface.Paths
import TypedSettings.Proofs.Text.Sorted
import TypedSettings.Proofs.Unit.Actions
import TypedSettings.Proofs.Unit.Qualifiers
import TypedSettings.Proofs.Unit.Variables

/-!
What a unit imports, and what its bodies name.

* `accessor_modules`, `actions_modules`: the modules that bodies call.
* `accessor_parts`: where the other names of a body stand.
* `unit_imports`: what a unit imports, and that it is what the unit's bodies name.
-/

namespace TypedSettings

open Source

namespace QualifiedName

/-- A name has one segment when no `::` stands in it. -/
theorem length_segments_eq_one_iff (name : String) :
    (segments name).length = 1 ↔ ¬[':', ':'] <:+: name.toList := by
  rw [segments, List.length_map]
  fun_induction splitFrom name.toList with
  | case1 => simp
  | case2 rest ih =>
    have hpos := List.length_pos_of_ne_nil (splitFrom_ne_nil rest)
    have hin : [':', ':'] <:+: ':' :: ':' :: rest := ⟨[], rest, rfl⟩
    simp only [List.length_cons, hin, not_true_eq_false, iff_false]
    omega
  | case3 c rest hne hnil ih => exact absurd hnil (splitFrom_ne_nil rest)
  | case4 c rest hne piece pieces hrest ih =>
    rw [hrest] at ih
    rw [List.length_cons, ← List.length_cons (a := piece), ih, List.infix_cons_iff, not_or]
    refine ⟨fun h => ⟨?_, h⟩, And.right⟩
    rintro ⟨after, hafter⟩
    obtain ⟨rfl, rfl⟩ := List.cons.inj hafter
    exact hne after rfl rfl

end QualifiedName

theorem CodePath.read_text {text : String} {p : CodePath} (h : read text = .ok p) :
    p.text = text := by
  unfold read at h
  split at h
  · cases h
    rfl
  · cases h

namespace Emit

open Stmt

variable {t : Target} {s : AccessorSpec}

/-! ## Imports -/

/-- What a unit with these accessors imports. -/
inductive Imports (t : Target) (store : StoreConfig) (specs : List AccessorSpec) : String → Prop
  | storeMode : store.name.isSome = true → Imports t store specs "prefs_api::StoreMode"
  | hashSet : (∃ s ∈ specs, s.kind = .primitive .stringSet) →
      Imports t store specs "std::collections::HashSet"
  | build : (t.guards .apply = true ∨
      t.guards .stringSet = true ∧ ∃ s ∈ specs, s.kind = .primitive .stringSet) →
      Imports t store specs "prefs_api::build"
  | compat : t.guards .stringSet = true → (∃ s ∈ specs, s.kind = .primitive .stringSet) →
      Imports t store specs "prefs_api::compat"
  | serializer (path : String) : t.serializer = some path → [':', ':'] <:+: path.toList →
      (∃ s ∈ specs, s.kind = .serialized) → Imports t store specs path

theorem mem_serializerImports {path : String} :
    path ∈ serializerImports t ↔ t.serializer = some path ∧ [':', ':'] <:+: path.toList := by
  unfold serializerImports
  cases t.serializer with
  | none => simp
  | some p =>
    have hlength := QualifiedName.length_segments_eq_one_iff p
    dsimp only
    split
    · next hone =>
      refine iff_of_false List.not_mem_nil ?_
      rintro ⟨heq, hin⟩
      exact hlength.1 hone (Option.some.inj heq ▸ hin)
    · next hmany =>
      have hin := not_not.1 (mt hlength.2 hmany)
      rw [List.mem_singleton, Option.some.injEq]
      exact ⟨fun heq => ⟨heq.symm, heq ▸ hin⟩, fun h => h.1.symm⟩

theorem mem_kindImports {kind : ValueKind} {path : String} :
    path ∈ kindImports kind t ↔
      (kind = .primitive .stringSet ∧ (path = "std::collections::HashSet" ∨
        t.guards .stringSet = true ∧ (path = "prefs_api::build" ∨ path = "prefs_api::compat"))) ∨
      (kind = .serialized ∧ t.serializer = some path ∧ [':', ':'] <:+: path.toList) := by
  cases kind with
  | serialized => simp [kindImports, mem_serializerImports]
  | primitive kind =>
    cases kind with
    | stringSet => cases hguard : t.guards .stringSet <;> simp [kindImports, hguard]
    | _ => simp [kindImports]

theorem mem_publishImports {path : String} :
    path ∈ publishImports t ↔ t.guards .apply = true ∧ path = "prefs_api::build" := by
  unfold publishImports
  split <;> simp [*]

theorem mem_storeImports {store : StoreConfig} {path : String} :
    path ∈ storeImports store ↔ store.name.isSome = true ∧ path = "prefs_api::StoreMode" := by
  unfold storeImports
  split <;> simp [*]

theorem mem_unitImports {store : StoreConfig} {specs : List AccessorSpec} {path : String} :
    path ∈ unitImports t store specs ↔ Imports t store specs path := by
  simp only [unitImports, Text.Sorted.mem_ofList, List.mem_append, List.mem_flatMap,
    accessorImports, mem_storeImports, mem_kindImports, mem_publishImports]
  constructor
  · rintro ((⟨hname, rfl⟩ | ⟨s, hs, h⟩) | ⟨hguard, rfl⟩)
    · exact .storeMode hname
    · rcases h with (⟨hkind, rfl | ⟨hguard, rfl | rfl⟩⟩ | ⟨hkind, hpath, hin⟩) | hpublish
      · exact .hashSet ⟨s, hs, hkind⟩
      · exact .build (.inr ⟨hguard, s, hs, hkind⟩)
      · exact .compat hguard ⟨s, hs, hkind⟩
      · exact .serializer path hpath hin ⟨s, hs, hkind⟩
      · cases hrole : s.role with
        | getter =>
          rw [hrole] at hpublish
          cases hpublish
        | putter =>
          rw [hrole] at hpublish
          obtain ⟨hguard, rfl⟩ := mem_publishImports.1 hpublish
          exact .build (.inl hguard)
    · exact .build (.inl hguard)
  · rintro (hname | ⟨s, hs, hkind⟩ | (hguard | ⟨hguard, s, hs, hkind⟩) | ⟨hguard, s, hs, hkind⟩
      | ⟨path, hpath, hin, s, hs, hkind⟩)
    · exact .inl (.inl ⟨hname, rfl⟩)
    · exact .inl (.inr ⟨s, hs, .inl (.inl ⟨hkind, .inl rfl⟩)⟩)
    · exact .inr ⟨hguard, rfl⟩
    · exact .inl (.inr ⟨s, hs, .inl (.inl ⟨hkind, .inr ⟨hguard, .inl rfl⟩⟩)⟩)
    · exact .inl (.inr ⟨s, hs, .inl (.inl ⟨hkind, .inr ⟨hguard, .inr rfl⟩⟩)⟩)
    · exact .inl (.inr ⟨s, hs, .inl (.inr ⟨hkind, hpath, hin⟩)⟩)

/-! ## Modules -/

/-- The modules that code calls which publishes a change. -/
def publishModules (t : Target) : List Module := if t.guards .apply then [.build] else []

/-- The modules that code calls which reads or writes values of a kind. -/
def kindModules (kind : ValueKind) (t : Target) : List Module :=
  match kind with
  | .primitive .stringSet => if t.guards .stringSet then [.build, .compat] else []
  | .serialized => (t.serializer.map fun path => .serializer (QualifiedName.simple path)).toList
  | .primitive _ => []

theorem mem_publishModules {m : Module} :
    m ∈ publishModules t ↔ t.guards .apply = true ∧ m = .build := by
  unfold publishModules
  split <;> simp [*]

theorem serializerName_eq_ok {name : String} (h : serializerName t = .ok name) :
    ∃ path, t.serializer = some path ∧ name = QualifiedName.simple path := by
  unfold serializerName at h
  split at h
  · cases h
  · next path hpath => exact ⟨path, hpath, (identifier_eq_ok h).1⟩

theorem publish_modules : (publish t).modules = publishModules t := by
  unfold publish publishModules
  split <;> rfl

theorem readStmt_modules {type : List Token} {read : Stmt} (h : readStmt s t type = .ok read) :
    read.modules = kindModules s.kind t := by
  unfold readStmt at h
  unfold kindModules
  split at h
  · next hkind =>
    rw [hkind]
    split at h <;> cases h <;> next hguard => simp [hguard, modules, modulesAll]
  · next kind hne hkind =>
    cases h
    rw [hkind]
    cases kind <;> first | rfl | exact absurd rfl hne
  · next hkind =>
    obtain ⟨name, hname, h⟩ := bind_eq_ok.1 h
    obtain ⟨path, hpath, rfl⟩ := serializerName_eq_ok hname
    cases h
    rw [hkind, hpath]
    rfl

theorem writeStmt_modules {param : String} {write : Stmt} (h : writeStmt s t param = .ok write) :
    write.modules = kindModules s.kind t := by
  unfold writeStmt at h
  unfold kindModules
  split at h
  · next hkind =>
    rw [hkind]
    split at h <;> cases h <;> next hguard => simp [hguard, modules, modulesAll]
  · next kind hne hkind =>
    cases h
    rw [hkind]
    cases kind <;> first | rfl | exact absurd rfl hne
  · next hkind =>
    obtain ⟨name, hname, h⟩ := bind_eq_ok.1 h
    obtain ⟨path, hpath, rfl⟩ := serializerName_eq_ok hname
    cases h
    rw [hkind, hpath]
    rfl

/-- The body of an accessor calls the modules that values of its kind need, and a putter what
publishing needs. -/
theorem accessor_modules {g : GeneratedMethod} (h : accessor s t = .ok g) :
    modulesAll g.body = kindModules s.kind t ++ match s.role with
      | .getter => []
      | .putter => publishModules t := by
  cases hrole : s.role with
  | getter =>
    obtain ⟨-, type, read, -, hread, rfl⟩ := getter_eq_ok hrole h
    rw [modulesAll, readStmt_modules hread]
    rfl
  | putter =>
    obtain ⟨-, -, type, write, -, hwrite, rfl⟩ := putter_eq_ok hrole h
    have hself : modulesAll (if s.isFluent then [.self] else []) = [] := by
      cases s.isFluent <;> rfl
    show [] ++ (write.modules ++ ((publish t).modules
      ++ modulesAll (if s.isFluent then [.self] else []))) = _
    rw [hself, writeStmt_modules hwrite, publish_modules, List.nil_append, List.append_nil]

/-- A change of the store calls what publishing it needs. -/
theorem modulesAll_change {change : Stmt} (h : change.modules = []) :
    modulesAll [.openEditor, change, publish t] = publishModules t := by
  show [] ++ (change.modules ++ ((publish t).modules ++ [])) = _
  rw [h, publish_modules, List.append_nil]
  rfl

theorem clearDefined_modules (keys : List String) :
    modulesAll (clearDefined t keys).body ⊆ publishModules t := by
  unfold clearDefined
  dsimp only
  split
  · exact List.nil_subset _
  · rw [modulesAll_change rfl]
    exact List.Subset.refl _

theorem initDefaults_modules {k : KeySpace} {init : GeneratedMethod}
    (h : initDefaults k = .ok init) : modulesAll init.body = [] := by
  obtain ⟨-, hstores⟩ := initDefaults_eq_ok h
  generalize init.body = body, storedPairs k = pairs at hstores
  induction hstores with
  | nil => rfl
  | cons hstore _ ih =>
    obtain ⟨_, _, -, -, rfl⟩ := hstore
    rw [modulesAll, ih]
    rfl

/-- The actions call what publishing a change needs, and no other module. -/
theorem actions_modules {k : KeySpace} {methods : List GeneratedMethod}
    (h : actions t k = .ok methods) :
    (∀ g ∈ methods, modulesAll g.body ⊆ publishModules t) ∧
      ∃ g ∈ methods, modulesAll g.body = publishModules t := by
  obtain ⟨init, hinit, rfl⟩ := actions_eq_ok h
  have hchange {change : Stmt} (h : change.modules = []) :
      modulesAll [.openEditor, change, publish t] ⊆ publishModules t :=
    modulesAll_change (t := t) h ▸ List.Subset.refl _
  have hclear : modulesAll [.openEditor, .clear, publish t] = publishModules t :=
    modulesAll_change rfl
  refine ⟨?_, _, List.mem_append_left _ (List.mem_of_getElem? (i := 5) rfl), hclear⟩
  simp only [fixedActions, List.cons_append, List.nil_append, List.forall_mem_cons,
    List.not_mem_nil, false_implies, implies_true, and_true]
  exact ⟨List.nil_subset _, List.nil_subset _, hchange rfl, List.nil_subset _, List.nil_subset _,
    hchange rfl, clearDefined_modules _, initDefaults_modules hinit ▸ List.nil_subset _⟩

/-! ## What is written -/

/-- Names in front of `::` that declarations write, and that stand in the code of accessors. -/
inductive Written (specs : List AccessorSpec) (q : String) : Prop
  | type (s : AccessorSpec) (type : List Token) : s ∈ specs → typeTokens s.type = .ok type →
      q ∈ Token.qualifiers type → Written specs q
  | default (s : AccessorSpec) (d : DefaultValue) : s ∈ specs → s.default = some d →
      q ∈ Token.qualifiers d.tokens → Written specs q
  | interface (s : AccessorSpec) (path : CodePath) : s ∈ specs →
      CodePath.read s.interface = .ok path → q ∈ Token.qualifiers path.tokens → Written specs q

theorem qualifiers_defaultTokens (d : DefaultValue) (kind : ValueKind) :
    Token.qualifiers (defaultTokens d kind) = Token.qualifiers d.tokens := by
  cases d with
  | expr tokens => rfl
  | literal l =>
    unfold defaultTokens
    dsimp only
    split
    · rw [Token.qualifiers_group, Token.qualifiers_append (.inl rfl)]
      exact List.append_nil _
    · rfl

theorem qualifiers_borrowedDefault (d : DefaultValue) (kind : ValueKind) :
    Token.qualifiers (borrowedDefault d kind) = Token.qualifiers d.tokens := by
  unfold borrowedDefault
  dsimp only
  split
  · rw [Token.qualifiers_append (.inl rfl), Token.qualifiers_group, qualifiers_defaultTokens]
    rfl
  · rw [qualifiers_defaultTokens]

/-- What is read without a default of its own names at most the types that it is made of. -/
theorem qualifiers_zeroDefault (kind : ValueKind) :
    Token.qualifiers kind.zeroDefault.tokens = match kind with
      | .primitive .stringSet => ["HashSet"]
      | .serialized => ["Default"]
      | .primitive _ => [] := by
  cases kind with
  | serialized => rfl
  | primitive kind => cases kind <;> decide +kernel

theorem readStmt_parts {type : List Token} {read : Stmt} (h : readStmt s t type = .ok read) :
    ∀ part ∈ read.parts, part = type ∨
      Token.qualifiers part = Token.qualifiers (s.default.getD s.kind.zeroDefault).tokens := by
  unfold readStmt at h
  dsimp only at h
  split at h
  · split at h
    all_goals
      cases h
      intro part hpart
      simp only [parts, partsAll, List.append_nil, List.cons_append, List.nil_append,
        List.mem_cons, List.not_mem_nil, or_false, or_self] at hpart
      exact .inr (hpart ▸ qualifiers_defaultTokens _ _)
  · cases h
    intro part hpart
    exact .inr (List.mem_singleton.1 hpart ▸ qualifiers_borrowedDefault _ _)
  · obtain ⟨name, -, h⟩ := bind_eq_ok.1 h
    cases h
    intro part hpart
    rcases List.mem_cons.1 hpart with rfl | hpart
    · exact .inl rfl
    · exact .inr (List.mem_singleton.1 hpart ▸ qualifiers_defaultTokens _ _)

theorem writeStmt_parts {param : String} {write : Stmt} (h : writeStmt s t param = .ok write) :
    write.parts = [] := by
  unfold writeStmt at h
  split at h
  · split at h <;> cases h <;> rfl
  · cases h
    rfl
  · obtain ⟨name, -, h⟩ := bind_eq_ok.1 h
    cases h
    rfl

theorem publish_parts : (publish t).parts = [] := by
  unfold publish
  split <;> rfl

/-- What stands in the body of an accessor and is not its own was written in a declaration, unless
it is the default of a value without one. -/
theorem accessor_parts {g : GeneratedMethod} (h : accessor s t = .ok g) {specs : List AccessorSpec}
    (hs : s ∈ specs) {part : List Token} (hpart : part ∈ partsAll g.body) {q : String}
    (hq : q ∈ Token.qualifiers part) :
    Written specs q ∨ q = "Default" ∨ q = "HashSet" ∧ s.kind = .primitive .stringSet := by
  cases hrole : s.role with
  | getter =>
    obtain ⟨-, type, read, htype, hread, rfl⟩ := getter_eq_ok hrole h
    rw [partsAll, partsAll, List.append_nil] at hpart
    rcases readStmt_parts hread part hpart with rfl | hdefault
    · exact .inl (.type s part hs htype hq)
    · rw [hdefault] at hq
      cases hgiven : s.default with
      | some d =>
        rw [hgiven] at hq
        exact .inl (.default s d hs hgiven hq)
      | none =>
        rw [hgiven, Option.getD_none, qualifiers_zeroDefault] at hq
        split at hq
        · next hkind => exact .inr (.inr ⟨List.mem_singleton.1 hq, hkind⟩)
        · exact .inr (.inl (List.mem_singleton.1 hq))
        · cases hq
  | putter =>
    obtain ⟨-, -, type, write, -, hwrite, rfl⟩ := putter_eq_ok hrole h
    have hself : partsAll (if s.isFluent then [.self] else []) = [] := by
      cases s.isFluent <;> rfl
    have hpart : part ∈ [] ++ (write.parts ++ ((publish t).parts
        ++ partsAll (if s.isFluent then [.self] else []))) := hpart
    rw [hself, writeStmt_parts hwrite, publish_parts] at hpart
    cases hpart

/-- What stands in the actions and is not their own are names of interfaces. -/
theorem actions_parts {k : KeySpace} {specs : List AccessorSpec} (hk : k.Holds specs)
    {methods : List GeneratedMethod} (h : actions t k = .ok methods) {g : GeneratedMethod}
    (hg : g ∈ methods) {part : List Token} (hpart : part ∈ partsAll g.body) {q : String}
    (hq : q ∈ Token.qualifiers part) : Written specs q := by
  obtain ⟨init, hinit, rfl⟩ := actions_eq_ok h
  have hnone {change : Stmt} (h : change.parts = []) :
      partsAll [.openEditor, change, publish t] = [] := by
    show [] ++ (change.parts ++ ((publish t).parts ++ [])) = _
    rw [h, publish_parts]
    rfl
  have hfixed : ∀ g ∈ fixedActions t, partsAll g.body = [] := by
    simp only [fixedActions, List.forall_mem_cons, List.not_mem_nil, false_implies, implies_true,
      and_true]
    exact ⟨rfl, rfl, hnone rfl, rfl, rfl, hnone rfl⟩
  have hclear : partsAll (clearDefined t k.definedKeys).body = [] := by
    unfold clearDefined
    dsimp only
    split
    · rfl
    · exact hnone rfl
  rcases List.mem_append.1 hg with hg | hg
  · rw [hfixed g hg] at hpart
    cases hpart
  · rcases List.mem_pair.1 hg with rfl | rfl
    · rw [hclear] at hpart
      cases hpart
    · obtain ⟨-, hstores⟩ := initDefaults_eq_ok hinit
      obtain ⟨stmt, hstmt, hpart⟩ := mem_partsAll.1 hpart
      obtain ⟨⟨getter, putter⟩, hpair, putterTrait, getterTrait, hputter, hgetter, rfl⟩ :=
        exists_of_forall₂ hstores.flip hstmt
      obtain ⟨hgs, hps, -⟩ := hk.isPair (KeySpace.mem_storedPairs_iff.1 hpair).1
      rcases List.mem_pair.1 hpart with rfl | rfl
      · exact .interface putter putterTrait hps hputter hq
      · exact .interface getter getterTrait hgs hgetter hq

/-- The constructor names what opens a store of a name. -/
theorem qualifiers_definition (structName root : String) (store : StoreConfig) :
    Token.qualifiers (definition structName root store)
      = if store.name.isSome then ["StoreMode"] else [] := by
  have hopen : Token.qualifiers (openCall store)
      = if store.name.isSome then ["StoreMode"] else [] := by
    unfold openCall
    cases store.name with
    | none => rfl
    | some name =>
      rw [Token.qualifiers_append (.inl rfl), Token.qualifiers_arguments]
      cases store.mode <;> rfl
  have hcolon : Token.isOp ":" (openCall store) = false := by
    unfold openCall
    cases store.name <;> rfl
  have hnamed {pieces : List String} (h : Token.endsOpen (Token.code pieces) = false)
      (hnone : Token.qualifiers (Token.code pieces) = []) :
      Token.qualifiers (Token.code (pieces ++ [structName])) = [] :=
    (qualifiers_code_concat h structName).trans hnone
  have hstruct : Token.qualifiers (Token.code ["pub", "struct", structName]) = [] :=
    hnamed (show Token.endsOpen (Token.code ["pub", "struct"]) = false from rfl) rfl
  have himpl : Token.qualifiers (Token.code ["impl", structName]) = [] :=
    hnamed (show Token.endsOpen (Token.code ["impl"]) = false from rfl) rfl
  have hfields : Token.qualifiers (Token.code ["preferences", ":"] ++ storeType
      ++ Token.code [","]) = [] := rfl
  have hfield : Token.qualifiers (Token.code ["preferences", ":"] ++ openCall store
      ++ Token.code [","]) = Token.qualifiers (openCall store) := by
    rw [Token.qualifiers_append (.inl rfl), Token.qualifiers_append (.inl hcolon)]
    exact List.append_nil _
  have hself (body : List Token) : Token.qualifiers (braced (Token.code ["Self"] ++ braced body))
      = Token.qualifiers body := by
    rw [qualifiers_braced, Token.qualifiers_append (.inl rfl), qualifiers_braced]
    rfl
  rw [definition, Token.qualifiers_append (.inl rfl), Token.qualifiers_append (.inl rfl),
    Token.qualifiers_append (.inl rfl), Token.qualifiers_append (.inl rfl), hstruct, himpl,
    qualifiers_braced, qualifiers_braced, hfields, Token.qualifiers_append (.inl rfl), hself,
    hfield, hopen]
  rfl

/-! ## Units -/

/-- What a unit imports, and how its bodies refer to it. -/
structure ImportsUsed (t : Target) (store : StoreConfig) (specs : List AccessorSpec)
    (u : GeneratedUnit) : Prop where
  /-- each path once, in the order of the paths -/
  sorted : (u.imports.map CodePath.text).Pairwise (· < ·)
  imported : ∀ path, path ∈ u.imports.map CodePath.text ↔ Imports t store specs path
  /-- the constructor names what opens a store of a name -/
  definition : Token.qualifiers u.definition = if store.name.isSome then ["StoreMode"] else []
  /-- a module that a body calls is imported, unless it is a serializer of one segment -/
  modules : ∀ g ∈ u.actions ++ u.impls.flatMap TraitImpl.methods, ∀ m ∈ modulesAll g.body,
    m.path t ∈ u.imports.map CodePath.text ∨
      m = .serializer (m.path t) ∧ ¬[':', ':'] <:+: (m.path t).toList
  /-- other names in front of `::` are imported, or known everywhere, or written by declarations -/
  names : ∀ g ∈ u.actions ++ u.impls.flatMap TraitImpl.methods,
    ∀ q ∈ Token.qualifiers (tokensAll g.body),
      (∃ m ∈ modulesAll g.body, q = m.name) ∨
      q = "HashSet" ∧ "std::collections::HashSet" ∈ u.imports.map CodePath.text ∨
      q ∈ ["Default", "deserialize"] ∨ Written specs q
  /-- every import is used -/
  used : ∀ path ∈ u.imports.map CodePath.text, path = "prefs_api::StoreMode" ∨
    path = "std::collections::HashSet" ∨
    ∃ g ∈ u.actions ++ u.impls.flatMap TraitImpl.methods, ∃ m ∈ modulesAll g.body, m.path t = path

theorem Imports.of_kindImports {store : StoreConfig} {specs : List AccessorSpec} {path : String}
    (hs : s ∈ specs) (h : path ∈ kindImports s.kind t) : Imports t store specs path :=
  mem_unitImports.1 (Text.Sorted.mem_ofList.2 (List.mem_append_left _ (List.mem_append_right _
    (List.mem_flatMap.2 ⟨s, hs, List.mem_append_left _ h⟩))))

theorem Imports.of_publishModules {store : StoreConfig} {specs : List AccessorSpec} {m : Module}
    (h : m ∈ publishModules t) : Imports t store specs (m.path t) := by
  obtain ⟨hguard, rfl⟩ := mem_publishModules.1 h
  exact .build (.inl hguard)

/-- The modules that values of a kind need are imported, unless it is a serializer of one
segment. -/
theorem path_mem_kindImports {kind : ValueKind} {m : Module} (h : m ∈ kindModules kind t) :
    m.path t ∈ kindImports kind t ∨
      m = .serializer (m.path t) ∧ ¬[':', ':'] <:+: (m.path t).toList := by
  cases kind with
  | primitive kind =>
    cases kind with
    | stringSet =>
      refine .inl (mem_kindImports.2 (.inl ⟨rfl, .inr ?_⟩))
      cases hguard : t.guards .stringSet with
      | false => simp [kindModules, hguard] at h
      | true =>
        have hm : m ∈ [Module.build, .compat] := by simpa [kindModules, hguard] using h
        rcases List.mem_pair.1 hm with rfl | rfl
        · exact ⟨rfl, .inl rfl⟩
        · exact ⟨rfl, .inr rfl⟩
    | _ => cases h
  | serialized =>
    obtain ⟨path, hpath, rfl⟩ : ∃ path, t.serializer = some path ∧
        m = .serializer (QualifiedName.simple path) := by
      simpa [kindModules, eq_comm] using h
    have hself : (Module.serializer (QualifiedName.simple path)).path t = path := by
      rw [Module.path, hpath, Option.getD_some]
    rw [hself]
    by_cases hin : [':', ':'] <:+: path.toList
    · exact .inl (mem_kindImports.2 (.inr ⟨rfl, hpath, hin⟩))
    · rw [QualifiedName.simple_eq_self hin]
      exact .inr ⟨rfl, hin⟩

/-- The modules that the body of an accessor calls are imported, unless it is a serializer of one
segment. -/
theorem accessor_imports {store : StoreConfig} {specs : List AccessorSpec} {g : GeneratedMethod}
    (h : accessor s t = .ok g) (hs : s ∈ specs) {m : Module} (hm : m ∈ modulesAll g.body) :
    Imports t store specs (m.path t) ∨
      m = .serializer (m.path t) ∧ ¬[':', ':'] <:+: (m.path t).toList := by
  rw [accessor_modules h, List.mem_append] at hm
  rcases hm with hm | hm
  · exact (path_mem_kindImports hm).imp_left (.of_kindImports hs)
  · cases hrole : s.role with
    | getter =>
      rw [hrole] at hm
      cases hm
    | putter =>
      rw [hrole] at hm
      exact .inl (.of_publishModules hm)

/-- What is imported is the mode of a store, the type of sets, or a module that an accessor or the
publishing of a change calls. -/
theorem Imports.used {store : StoreConfig} {specs : List AccessorSpec} {path : String}
    (h : Imports t store specs path) :
    path = "prefs_api::StoreMode" ∨ path = "std::collections::HashSet" ∨
      (∃ s ∈ specs, ∃ m ∈ kindModules s.kind t, m.path t = path) ∨
      ∃ m ∈ publishModules t, m.path t = path := by
  cases h with
  | storeMode _ => exact .inl rfl
  | hashSet _ => exact .inr (.inl rfl)
  | build h =>
    rcases h with hguard | ⟨hguard, s, hs, hkind⟩
    · exact .inr (.inr (.inr ⟨.build, mem_publishModules.2 ⟨hguard, rfl⟩, rfl⟩))
    · exact .inr (.inr (.inl ⟨s, hs, .build, by simp [kindModules, hkind, hguard], rfl⟩))
  | compat hguard h =>
    obtain ⟨s, hs, hkind⟩ := h
    exact .inr (.inr (.inl ⟨s, hs, .compat, by simp [kindModules, hkind, hguard], rfl⟩))
  | serializer path hpath _ h =>
    obtain ⟨s, hs, hkind⟩ := h
    refine .inr (.inr (.inl ⟨s, hs, .serializer (QualifiedName.simple path), ?_, ?_⟩))
    · simp [kindModules, hkind, hpath]
    · rw [Module.path, hpath, Option.getD_some]

/-- The imports of a unit are the paths that it needs, as they are read. -/
theorem unit_paths {root : InterfaceDecl} {walk : Walk} {u : GeneratedUnit}
    (hu : unit t root walk = .ok u) :
    u.imports.map CodePath.text = unitImports t (root.store.getD {}) walk.outcome.specs ∧
      ∀ p ∈ u.imports, CodePath.read p.text = .ok p := by
  have hread := (assembled hu).imports
  constructor
  · rw [← List.map_id (unitImports t _ _)]
    exact (map_eq_map_of_forall₂ (hread.imp fun _ _ h => (CodePath.read_text h).symm)).symm
  · intro p hp
    obtain ⟨text, -, htext⟩ := exists_of_forall₂ hread.flip hp
    exact (CodePath.read_text htext) ▸ htext

/-- A unit imports what its accessors and its store need, and that is what its bodies name. -/
theorem unit_imports (w : World) (t : Target) (root : InterfaceDecl) (u : GeneratedUnit)
    (hu : unit t root (Walk.ofRoot w root) = .ok u) :
    ImportsUsed t (root.store.getD {}) (Walk.ofRoot w root).outcome.specs u := by
  obtain ⟨order, events, results, hpre, haccount⟩ := Walk.exists_account w root
  have hmethods := (GeneratedUnit.faithful_of_account hpre haccount hu).methods
  have hparts := assembled hu
  have hmem (path : String) : path ∈ u.imports.map CodePath.text ↔
      Imports t (root.store.getD {}) (Walk.ofRoot w root).outcome.specs path := by
    rw [(unit_paths hu).1, mem_unitImports]
  -- a body is that of an action, or that of an accessor
  have hbodies {g : GeneratedMethod} (hg : g ∈ u.actions ++ u.impls.flatMap TraitImpl.methods) :
      g ∈ u.actions ∨ ∃ s ∈ (Walk.ofRoot w root).outcome.specs, accessor s t = .ok g := by
    refine (List.mem_append.1 hg).imp_right fun hg => ?_
    obtain ⟨s, hs, haccessor, -⟩ := exists_of_forall₂ hmethods.flip hg
    exact ⟨s, hs, haccessor⟩
  obtain ⟨hcalled, action, haction, hpublish⟩ := actions_modules hparts.actions
  constructor
  case sorted =>
    rw [(unit_paths hu).1]
    exact Text.Sorted.pairwise_ofList _
  case imported => exact hmem
  case definition =>
    rw [hparts.definition]
    exact qualifiers_definition _ _ _
  case modules =>
    intro g hg m hm
    rw [hmem]
    rcases hbodies hg with hg | ⟨s, hs, hg⟩
    · exact .inl (.of_publishModules (hcalled g hg hm))
    · exact accessor_imports hg hs hm
  case names =>
    intro g hg q hq
    rcases named_tokensAll g.body q hq with hq | ⟨part, hpart, hq⟩ | rfl
    · obtain ⟨m, hm, rfl⟩ := List.mem_map.1 hq
      exact .inl ⟨m, hm, rfl⟩
    · rcases hbodies hg with hg | ⟨s, hs, hg⟩
      · have hkeys := Walk.holds_specs w root
        exact .inr (.inr (.inr (actions_parts hkeys hparts.actions hg hpart hq)))
      · rcases accessor_parts hg hs hpart hq with hwritten | rfl | ⟨rfl, hkind⟩
        · exact .inr (.inr (.inr hwritten))
        · exact .inr (.inr (.inl List.mem_cons_self))
        · exact .inr (.inl ⟨rfl, (hmem _).2 (.hashSet ⟨s, hs, hkind⟩)⟩)
    · exact .inr (.inr (.inl (List.mem_cons_of_mem _ List.mem_cons_self)))
  case used =>
    intro path hpath
    rcases ((hmem path).1 hpath).used with rfl | rfl | ⟨s, hs, m, hm, rfl⟩ | ⟨m, hm, rfl⟩
    · exact .inl rfl
    · exact .inr (.inl rfl)
    · obtain ⟨g, hg, haccessor, -⟩ := exists_of_forall₂ hmethods hs
      refine .inr (.inr ⟨g, List.mem_append_right _ hg, m, ?_, rfl⟩)
      rw [accessor_modules haccessor]
      exact List.mem_append_left _ hm
    · exact .inr (.inr ⟨action, List.mem_append_left _ haction, m, hpublish ▸ hm, rfl⟩)

/-! A unit that imports all of it, and one whose serializer is a path of one segment after `::`,
which it imports, while a default names a module that it does not import. -/

def appTarget : Target := { minLevel := some 8, serializer := some "prefs_api::serializer" }

def appRoot : InterfaceDecl :=
  { name := "crate::Settings"
    store := some { name := some "app" }
    methods := [{ name := "tags", returns := .path ["HashSet"] [.named "String"] },
      { name := "theme", returns := .named "Theme" }] }

def codecTarget : Target := { serializer := some "::codec" }

def codecRoot : InterfaceDecl :=
  { name := "crate::Settings"
    store := some {}
    methods := [
      { name := "level", returns := .named "i32"
        metadata := { default := some (.expr (Token.code ["build", "::", "LEVEL"])) } },
      { name := "theme", returns := .named "Theme" }] }

/-- The walk of a root without ancestors. -/
def worldOf (t : Target) (root : InterfaceDecl) : World :=
  { declarations := ⟨[root]⟩, serializer := t.serializer }

theorem app_evaluated :
    ((({} : Walk).visit (worldOf appTarget appRoot) (.declared appRoot)).outcome.specs.map
      AccessorSpec.kind = [.primitive .stringSet, .serialized]) ∧
    (unit appTarget appRoot
      (({} : Walk).visit (worldOf appTarget appRoot) (.declared appRoot))).isOk = true := by
  decide +kernel

theorem unit_imports_app : ∃ u,
    unit appTarget appRoot (Walk.ofRoot (worldOf appTarget appRoot) appRoot) = .ok u ∧
    (∀ path ∈ ["prefs_api::StoreMode", "prefs_api::build", "prefs_api::compat",
        "prefs_api::serializer", "std::collections::HashSet"],
      path ∈ u.imports.map CodePath.text) ∧
    Token.qualifiers u.definition = ["StoreMode"] := by
  have hwalk : Walk.ofRoot (worldOf appTarget appRoot) appRoot
      = ({} : Walk).visit (worldOf appTarget appRoot) (.declared appRoot) := Walk.ofRoot_alone rfl
  obtain ⟨hkinds, hok⟩ := app_evaluated
  rw [← hwalk] at hkinds hok
  obtain ⟨u, hu⟩ := exists_of_isOk hok
  have h := unit_imports _ _ _ _ hu
  have hkind (kind : ValueKind) (hmem : kind ∈ [.primitive .stringSet, .serialized]) :
      ∃ s ∈ (Walk.ofRoot (worldOf appTarget appRoot) appRoot).outcome.specs, s.kind = kind := by
    rw [← hkinds] at hmem
    exact List.mem_map.1 hmem
  have hset := hkind (.primitive .stringSet) List.mem_cons_self
  refine ⟨u, hu, ?_, h.definition⟩
  simp only [List.forall_mem_cons, List.not_mem_nil, false_implies, implies_true, and_true]
  refine ⟨(h.imported _).2 (.storeMode rfl), (h.imported _).2 (.build (.inl rfl)),
    (h.imported _).2 (.compat rfl hset), (h.imported _).2 (.serializer _ rfl ?_ ?_),
    (h.imported _).2 (.hashSet hset)⟩
  · decide +kernel
  · exact hkind .serialized (List.mem_cons_of_mem _ List.mem_cons_self)

theorem codec_evaluated :
    (match readPath "::codec", unit codecTarget codecRoot
        (({} : Walk).visit (worldOf codecTarget codecRoot) (.declared codecRoot)) with
      | .ok path, .ok u => (Tree.members (path.parts.drop 1)).length == 1
        && u.imports.map CodePath.text == ["::codec"]
        && (u.impls.flatMap TraitImpl.methods).any fun g =>
          (Token.qualifiers (tokensAll g.body)).contains "build"
      | _, _ => false) = true := by
  decide +kernel

/-- A serializer of one segment is imported, and a body names a module that is not. -/
theorem codec_imports : ∃ u path g,
    unit codecTarget codecRoot (Walk.ofRoot (worldOf codecTarget codecRoot) codecRoot) = .ok u ∧
    codecTarget.serializer = some "::codec" ∧ readPath "::codec" = .ok path ∧
    (Tree.members (path.parts.drop 1)).length = 1 ∧
    u.imports.map CodePath.text = ["::codec"] ∧
    g ∈ u.impls.flatMap TraitImpl.methods ∧
    "build" ∈ Token.qualifiers (tokensAll g.body) ∧
    "prefs_api::build" ∉ u.imports.map CodePath.text := by
  rw [Walk.ofRoot_alone rfl]
  have hevaluated := codec_evaluated
  split at hevaluated
  · next path u hpath hu =>
    simp only [Bool.and_eq_true, beq_iff_eq, List.any_eq_true, List.contains_iff_mem] at hevaluated
    obtain ⟨⟨hone, himports⟩, g, hg, hbuild⟩ := hevaluated
    refine ⟨u, path, g, hu, rfl, hpath, hone, himports, hg, hbuild, ?_⟩
    rw [himports]
    decide
  · cases hevaluated

end Emit

end TypedSettings
