import TypedSettings.Proofs.Accessor.Pairs
import TypedSettings.Proofs.Interface.Spelling
import TypedSettings.Proofs.Unit.Actions

/-!
What a unit stores of pairs whose values are of one kind. A kind of values may have several
spellings: a string is a `String` or a `std::string::String`. A pair is stored, and not remarked
on, where the getter and the putter have one type as it is written; that the kinds agree is not
enough.

* `ValueKind.ofType_eq_primitive_iff`: the types of each kind.
* `Emit.exists_initDefaults`: the action of a unit that stores the pairs, statement by statement.
* `Walk.stored_of_kind`: what becomes of a getter and a putter of one key and one kind.
-/

namespace TypedSettings

/-! ## Spellings of a kind -/

namespace QualifiedName

/-- A name without colons is one segment. -/
theorem ofSegments_eq_iff {segments : List String} {name : String} (hname : name ≠ "")
    (hcolon : ':' ∉ name.toList) : ofSegments segments = name ↔ segments = [name] := by
  constructor
  · rintro rfl
    cases segments with
    | nil => exact absurd rfl hname
    | cons a as =>
      cases as with
      | nil => rw [ofSegments, String.intercalate_singleton]
      | cons b bs =>
        refine absurd ?_ hcolon
        rw [ofSegments, TypeRef.toList_intercalate_cons]
        exact List.mem_append_right _ List.mem_cons_self
  · rintro rfl
    exact String.intercalate_singleton

end QualifiedName

namespace ValueKind

/-- The name of the type of a kind, where it has only one. -/
def typeName? : StoreKind → Option String
  | .boolean => some "bool"
  | .int => some "i32"
  | .long => some "i64"
  | .float => some "f32"
  | .string => none
  | .stringSet => none

/-- A type is written as a type of a kind. -/
inductive Spells : StoreKind → TypeRef → Prop
  | named {kind : StoreKind} {name : String} :
      typeName? kind = some name → Spells kind (.named name)
  | string {path : List String} :
      QualifiedName.ofSegments path ∈ stringPaths → Spells .string (.path path [])
  | stringSet {path item : List String} :
      QualifiedName.ofSegments path ∈ setPaths → QualifiedName.ofSegments item ∈ stringPaths →
      Spells .stringSet (.path path [.path item []])

theorem ofPath?_eq_string : ∀ text ∈ stringPaths, ofPath? text = some .string := by decide

theorem ofPath?_eq_some_iff {path : List String} {kind : StoreKind} :
    ofPath? (QualifiedName.ofSegments path) = some kind ↔ Spells kind (.path path []) := by
  have hnamed {name : String} (hne : name ≠ "") (hcolon : ':' ∉ name.toList)
      (hkind : typeName? kind = some name) (hname : QualifiedName.ofSegments path = name) :
      Spells kind (.path path []) := by
    rw [(QualifiedName.ofSegments_eq_iff hne hcolon).1 hname]
    exact .named hkind
  constructor
  · intro h
    unfold ofPath? at h
    split at h
    · next hname => exact hnamed (by decide) (by decide) (by cases h; rfl) hname
    · split at h
      · next hname => exact hnamed (by decide) (by decide) (by cases h; rfl) hname
      · split at h
        · next hname => exact hnamed (by decide) (by decide) (by cases h; rfl) hname
        · split at h
          · next hname => exact hnamed (by decide) (by decide) (by cases h; rfl) hname
          · split at h
            · next hpath =>
              cases h
              exact .string (List.contains_iff_mem.1 hpath)
            · cases h
  · intro h
    cases h with
    | named hkind => cases kind <;> cases hkind <;> rfl
    | string hpath => exact ofPath?_eq_string _ hpath

theorem ofType_path_eq_iff {path : List String} {kind : StoreKind} :
    ofType (.path path []) = .primitive kind ↔ Spells kind (.path path []) := by
  rw [← ofPath?_eq_some_iff, ofType]
  cases ofPath? (QualifiedName.ofSegments path) <;> simp

theorem ofType_eq_string {type : TypeRef} (h : ofType type = .primitive .string) :
    ∃ path, type = .path path [] ∧ QualifiedName.ofSegments path ∈ stringPaths := by
  unfold ofType at h
  split at h
  · next path =>
    cases ofType_path_eq_iff.1 (by rw [ofType, h]) with
    | named hkind => cases hkind
    | string hpath => exact ⟨path, rfl, hpath⟩
  · split at h <;> cases h
  · cases h

/-- The types of a kind are those that are written as such. -/
theorem ofType_eq_primitive_iff {type : TypeRef} {kind : StoreKind} :
    ofType type = .primitive kind ↔ Spells kind type := by
  constructor
  · intro h
    unfold ofType at h
    split at h
    · exact ofType_path_eq_iff.1 (by rw [ofType, h])
    · next path arg =>
      split at h
      · next hset =>
        cases h
        obtain ⟨hpath, harg⟩ := Bool.and_eq_true_iff.1 hset
        obtain ⟨item, rfl, hitem⟩ := ofType_eq_string (beq_iff_eq.1 harg)
        exact .stringSet (List.contains_iff_mem.1 hpath) hitem
      · cases h
    · cases h
  · intro h
    cases h with
    | named hkind => exact ofType_path_eq_iff.2 (.named hkind)
    | string hpath => exact ofType_path_eq_iff.2 (.string hpath)
    | stringSet hset hitem =>
      rw [ofType, ofType_path_eq_iff.2 (.string hitem), List.contains_iff_mem.2 hset]
      rfl

/-- A kind whose type has one name has one type. -/
theorem Spells.eq {kind : StoreKind} {a b : TypeRef} (ha : Spells kind a) (hb : Spells kind b)
    (hkind : typeName? kind ≠ none) : a = b := by
  cases ha with
  | named hname =>
    cases hb with
    | named hname' => rw [Option.some.inj (hname.symm.trans hname')]
    | string _ => exact absurd rfl hkind
    | stringSet _ _ => exact absurd rfl hkind
  | string _ => exact absurd rfl hkind
  | stringSet _ _ => exact absurd rfl hkind

end ValueKind

/-! ## The action that stores pairs -/

namespace Emit

variable {t : Target} {k : KeySpace} {g p : AccessorSpec}

/-- An accessor can be called in generated code. -/
def Callable (s : AccessorSpec) : Prop :=
  (∃ path, CodePath.read s.interface = .ok path) ∧ ∃ name, identifier s.method = .ok name

theorem exists_storeStmt_iff :
    (∃ stmt, storeStmt g p = .ok stmt) ↔ Callable g ∧ Callable p := by
  constructor
  · rintro ⟨stmt, h⟩
    obtain ⟨getterTrait, hgetter, h⟩ := bind_eq_ok.1 h
    obtain ⟨putterTrait, hputter, h⟩ := bind_eq_ok.1 h
    obtain ⟨getterName, hgetterName, h⟩ := bind_eq_ok.1 h
    obtain ⟨putterName, hputterName, -⟩ := bind_eq_ok.1 h
    exact ⟨⟨⟨_, hgetter⟩, _, hgetterName⟩, ⟨_, hputter⟩, _, hputterName⟩
  · rintro ⟨⟨⟨getterTrait, hgetter⟩, getterName, hgetterName⟩, ⟨putterTrait, hputter⟩, putterName,
      hputterName⟩
    refine ⟨.store putterTrait putterName getterTrait getterName, ?_⟩
    rw [storeStmt, hgetter, hputter, hgetterName, hputterName]
    rfl

/-- The pairs are stored when every accessor of a stored pair can be called. -/
theorem exists_initDefaults_iff :
    (∃ init, initDefaults k = .ok init) ↔
      ∀ pair ∈ storedPairs k, Callable pair.1 ∧ Callable pair.2 := by
  have hbody : (∃ body, (storedPairs k).mapM (fun p => storeStmt p.1 p.2) = .ok body ∧
        ∀ stmt ∈ body, True) ↔
      ∀ pair ∈ storedPairs k, ∃ stmt, storeStmt pair.1 pair.2 = .ok stmt ∧ True :=
    exists_mapM_eq_ok_iff
  simp only [implies_true, and_true, exists_storeStmt_iff] at hbody
  rw [← hbody]
  constructor
  · rintro ⟨init, h⟩
    obtain ⟨body, hbody, -⟩ := bind_eq_ok.1 h
    exact ⟨body, hbody⟩
  · rintro ⟨body, hbody⟩
    exact ⟨_, bind_eq_ok.2 ⟨body, hbody, rfl⟩⟩

/-- The last action of a unit stores the pairs, statement by statement. -/
theorem exists_initDefaults {root : InterfaceDecl} {walk : Walk} {u : GeneratedUnit}
    (h : unit t root walk = .ok u) :
    ∃ clear init, u.actions = fixedActions t ++ [clear, init] ∧ init.name = "init_defaults" ∧
      List.Forall₂ Stores (storedPairs walk.outcome.keys) init.body := by
  obtain ⟨init, hinit, hmethods⟩ := actions_eq_ok (assembled h).actions
  obtain ⟨hname, hbody⟩ := initDefaults_eq_ok hinit
  exact ⟨_, init, hmethods, hname, hbody⟩

end Emit

/-! ## Pairs of one kind -/

namespace Walk

/-- What becomes of a getter and a putter of one key, of which the values are of one kind. -/
structure OfOneKind (w : World) (root : InterfaceDecl) (kind : StoreKind) (g p : AccessorSpec) :
    Prop where
  paired : (g, p) ∈ (ofRoot w root).outcome.keys.pairs
  /-- each type is one of those of the kind, and some kinds have only one -/
  getter : ValueKind.Spells kind g.type
  putter : ValueKind.Spells kind p.type
  type_eq : ValueKind.typeName? kind ≠ none → g.type = p.type
  /-- of their key they are stored, if their types are one, and nothing else is -/
  stored_iff : ∀ pair, pair ∈ Emit.storedPairs (ofRoot w root).outcome.keys ∧ pair.1.key = g.key ↔
    g.type = p.type ∧ pair = (g, p)
  /-- on their key there is a remark if their types are not one, and no other -/
  remark_iff : ∀ wn, wn ∈ (ofRoot w root).outcome.keys.warnings ∧ wn.key = g.key ↔
    g.type ≠ p.type ∧ wn = .typeMismatch g.key g.type p.type p.attribution
  /-- a unit stores the stored pairs, in order, by its last action -/
  units : ∀ t u, Emit.unit t root (ofRoot w root) = .ok u →
    ∃ clear init, u.actions = Emit.fixedActions t ++ [clear, init] ∧
      init.name = "init_defaults" ∧
      List.Forall₂ Emit.Stores (Emit.storedPairs (ofRoot w root).outcome.keys) init.body
  /-- which is there when the accessors of the stored pairs can be called -/
  action_iff : (∃ init, Emit.initDefaults (ofRoot w root).outcome.keys = .ok init) ↔
    ∀ pair ∈ Emit.storedPairs (ofRoot w root).outcome.keys,
      Emit.Callable pair.1 ∧ Emit.Callable pair.2
  /-- a report has the remarks, and no others -/
  reports : ∀ t report, UnitReport.ofRoot w t root = .ok report →
    ∀ wn, .warning wn ∈ report.diagnostics ↔ wn ∈ (ofRoot w root).outcome.keys.warnings

/-- A getter and a putter of one key and one kind are stored exactly when they have one type as it
is written; otherwise there is a remark that their types differ, also where the two are spellings
of one type. -/
theorem stored_of_kind (w : World) (root : InterfaceDecl) (kind : StoreKind) (g p : AccessorSpec)
    (hpair : KeySpace.IsPair (ofRoot w root).outcome.specs g p)
    (hg : ValueKind.ofType g.type = .primitive kind)
    (hp : ValueKind.ofType p.type = .primitive kind) : OfOneKind w root kind g p := by
  have hholds := holds_specs w root
  have hapart := apart_specs w root
  have hgetter := ValueKind.ofType_eq_primitive_iff.1 hg
  have hputter := ValueKind.ofType_eq_primitive_iff.1 hp
  constructor
  case paired => exact (hholds.mem_pairs_iff hapart).2 hpair
  case getter => exact hgetter
  case putter => exact hputter
  case type_eq => exact hgetter.eq hputter
  case stored_iff => exact fun pair => hholds.mem_storedPairs_of_isPair hapart hpair
  case remark_iff => exact fun wn => hholds.mem_warnings_of_isPair hapart hpair
  case units => exact fun t u => Emit.exists_initDefaults
  case action_iff => exact Emit.exists_initDefaults_iff
  case reports =>
    intro t report h wn
    obtain ⟨rendered, rfl⟩ := UnitReport.exists_rendering h
    exact UnitReport.warning_mem_ofRendering

/-! A root that reads its title under one spelling of the type of strings and writes it under
another. -/

def stringType : TypeRef := .path ["std", "string", "String"] []

def notesRoot : InterfaceDecl :=
  { name := "crate::Notes"
    methods :=
      [{ name := "title", returns := .named "String" },
       { name := "set_title", params := [⟨"title", stringType⟩] },
       { name := "draft", returns := .named "bool" },
       { name := "set_draft", params := [⟨"draft", .named "bool"⟩] }] }

def notes : World := { declarations := ⟨[notesRoot]⟩ }

theorem stored_of_kind_notes : ∃ title setTitle draft setDraft,
    (ofRoot notes notesRoot).outcome.specs = [title, setTitle, draft, setDraft] ∧
    title.key = "title" ∧ setTitle.key = "title" ∧
    ValueKind.ofType title.type = .primitive .string ∧
    ValueKind.ofType setTitle.type = .primitive .string ∧
    (∀ pair ∈ Emit.storedPairs (ofRoot notes notesRoot).outcome.keys, pair.1.key ≠ "title") ∧
    .typeMismatch "title" (.named "String") stringType setTitle.attribution
      ∈ (ofRoot notes notesRoot).outcome.keys.warnings ∧
    (draft, setDraft) ∈ Emit.storedPairs (ofRoot notes notesRoot).outcome.keys := by
  obtain ⟨title, setTitle, draft, setDraft, hspecs, ⟨hgrole, hgkey, hgtype⟩,
      ⟨hprole, hpkey, hptype⟩, ⟨hgrole', hgkey', hgtype'⟩, ⟨hprole', hpkey', hptype'⟩⟩ :
      ∃ title setTitle draft setDraft,
        (ofRoot notes notesRoot).outcome.specs = [title, setTitle, draft, setDraft] ∧
        (title.role = .getter ∧ title.key = "title" ∧ title.type = .named "String") ∧
        (setTitle.role = .putter ∧ setTitle.key = "title" ∧ setTitle.type = stringType) ∧
        (draft.role = .getter ∧ draft.key = "draft" ∧ draft.type = .named "bool") ∧
        (setDraft.role = .putter ∧ setDraft.key = "draft" ∧ setDraft.type = .named "bool") := by
    rw [ofRoot_alone rfl]
    exact ⟨_, _, _, _, rfl, ⟨rfl, rfl, rfl⟩, ⟨rfl, rfl, rfl⟩, ⟨rfl, rfl, rfl⟩, ⟨rfl, rfl, rfl⟩⟩
  have hgkind : ValueKind.ofType title.type = .primitive .string := by rw [hgtype]; decide
  have hpkind : ValueKind.ofType setTitle.type = .primitive .string := by rw [hptype]; decide
  have htitle := stored_of_kind notes notesRoot .string title setTitle
    ⟨by simp [hspecs], by simp [hspecs], hgrole, hprole, hgkey.trans hpkey.symm⟩ hgkind hpkind
  have hdraft := stored_of_kind notes notesRoot .boolean draft setDraft
    ⟨by simp [hspecs], by simp [hspecs], hgrole', hprole', hgkey'.trans hpkey'.symm⟩
    (by rw [hgtype']; decide) (by rw [hptype']; decide)
  have hne : title.type ≠ setTitle.type := by rw [hgtype, hptype]; decide
  have heq : draft.type = setDraft.type := hgtype'.trans hptype'.symm
  have hremark := ((htitle.remark_iff _).2 ⟨hne, rfl⟩).1
  rw [hgkey, hgtype, hptype] at hremark
  refine ⟨title, setTitle, draft, setDraft, hspecs, hgkey, hpkey, hgkind, hpkind, ?_, hremark,
    ((hdraft.stored_iff _).2 ⟨heq, rfl⟩).1⟩
  intro pair hpair hkey
  exact hne ((htitle.stored_iff pair).1 ⟨hpair, hkey.trans hgkey.symm⟩).1

end Walk

end TypedSettings
