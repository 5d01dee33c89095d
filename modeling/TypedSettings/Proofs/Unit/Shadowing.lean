import TypedSettings.Proofs.Interface.Names
import TypedSettings.Proofs.Interface.Readback
import TypedSettings.Proofs.Unit.Imports

/-!
The names that a unit's `use` items bind one by one, and what they hide. They hide what the unit
sees of its root's module through `use super::*`, so that a type of the module that has such a name
is not the type that the unit means by it.

* `binds_eq`: every unit binds five names, and the last name of each path that it imports.
* `importedNames_nodup_iff`: two names are equal only where the serializer's last name is bound
  twice.
* `unit_binds_iff`: when all names are different and hide no type of the root's module.
-/

namespace TypedSettings

open Source

/-! ## Names of `use` items -/

namespace Source.Token

/-- Whether a path ends in front of the tokens. -/
def endsPath : List Token → Bool
  | [] => true
  | sign c _ _ :: _ => c == ',' || c == ';'
  | _ => false

/-- The name that a token is, if a path ends with it. -/
def leaf? : Token → List Token → Option String
  | word w _, rest => if endsPath rest && !isKeyword w then some w else none
  | _, _ => none

mutual

def leavesOf : Token → List String
  | group .brace body _ _ => leaves body
  | _ => []

/-- The names that paths end with, also inside braces. -/
def leaves : List Token → List String
  | [] => []
  | t :: rest => (leaf? t rest).toList ++ leavesOf t ++ leaves rest

end

/-- The names in two parts, if the first does not end with a name. -/
theorem leaves_append {ts us : List Token} (h : endsOpen ts = false) :
    leaves (ts ++ us) = leaves ts ++ leaves us := by
  induction ts with
  | nil => rfl
  | cons t ts ih =>
    have hrest : endsOpen ts = false := by
      cases ts with
      | nil => rfl
      | cons u ts => cases t <;> exact h
    have hleaf : leaf? t (ts ++ us) = leaf? t ts := by
      cases t with
      | word w pos =>
        cases ts with
        | cons u ts => cases u <;> rfl
        | nil =>
          have hw : isKeyword w = true := by simpa [endsOpen] using h
          simp [leaf?, hw]
      | _ => rfl
    rw [List.cons_append, leaves, leaves, hleaf, ih hrest, List.append_assoc, List.append_assoc,
      List.append_assoc]

end Source.Token

/-! ## Paths -/

namespace TypeRef

open Token Parser Grammar

/-- A path that is made of names is read as its segments. -/
theorem readPath_ofSegments {names : List String} (h : AreSegments False names) :
    ∃ parts, readPath (QualifiedName.ofSegments names)
        = .ok (.node .path (.absent :: parts)) ∧ ShapesNames .absent names parts := by
  have hlexes := lexes_segments h.isWord Lexer.stops_nil
  rw [List.append_nil] at hlexes
  have hhead : ∀ c ∈ (QualifiedName.ofSegments names).toList.head?, c.toNat ≠ 0xFEFF := by
    obtain ⟨c, cs, htext, hc⟩ := names_head h
    rw [htext]
    rintro d ⟨⟩
    exact hc
  obtain ⟨us, htokens, hus⟩ := Lexer.tokenize_of_lexes hlexes hhead
  have hends : Ends boundEnds [] := nofun
  obtain ⟨parts, hread, hshapes⟩ := path_read (toDepth (depthFor us)) h hus {} hends
    fun hw pos => segment_plain hw pos {} (opensArgs_ends hends)
  rw [List.append_nil] at hread
  refine ⟨parts, ?_, hshapes⟩
  have hall : readTokens (fun r => Grammar.path r false) us
      = .ok (.node .path (.absent :: parts)) := runAll_eq_ok.2 ⟨_, hread⟩
  rw [readPath, readText, htokens]
  dsimp only
  rw [hall]

/-- The segments of a path end with their last name. -/
theorem leaves_names {names : List String} {last : String} {parts : List Tree}
    (h : ShapesNames .absent (names ++ [last]) parts) (hlast : isKeyword last = false)
    (rest : List Token) :
    leaves (Tree.tokensAll parts ++ sign ';' false {} :: rest) = last :: leaves rest := by
  induction names generalizing parts with
  | nil =>
    obtain ⟨pos, rfl⟩ := h
    show (leaf? (word last pos) (sign ';' false {} :: rest)).toList ++ [] ++ leaves rest = _
    simp [leaf?, endsPath, hlast]
  | cons w names ih =>
    obtain ⟨pos, pos', more, rfl, hmore⟩ : ∃ pos pos' more, parts
        = .node .segment [.run [.word w pos], .absent]
          :: .run [.sign ':' true pos', .sign ':' false pos'] :: more
        ∧ ShapesNames .absent (names ++ [last]) more := by
      cases names with
      | nil => exact h
      | cons w' names => exact h
    refine Eq.trans ?_ (ih hmore)
    rfl

end TypeRef

namespace QualifiedName

/-- A path of names, the last of which is a name of its own. -/
def Plain (path : String) : Prop :=
  ∃ names last, path = ofSegments (names ++ [last]) ∧ TypeRef.AreSegments False (names ++ [last]) ∧
    Token.isKeyword last = false

end QualifiedName

namespace CodePath

/-- A `use` item of a plain path binds its last name. -/
theorem leaves_use {text : String} {p : CodePath} (h : read text = .ok p)
    (hplain : QualifiedName.Plain text) (rest : List Token) :
    Token.leaves (Token.code ["use"] ++ p.tokens ++ Token.code [";"] ++ rest)
      = QualifiedName.simple text :: Token.leaves rest := by
  obtain ⟨names, last, rfl, hsegments, hlast⟩ := hplain
  obtain ⟨parts, hread, hshapes⟩ := TypeRef.readPath_ofSegments hsegments
  rw [read, hread] at h
  cases h
  rw [QualifiedName.simple_ofSegments _ (Emit.colon_not_mem (hsegments.isWord last (by simp)).1),
    ← TypeRef.leaves_names hshapes hlast rest]
  have huse : Token.isKeyword "use" = true := by decide
  show Token.leaves (Token.name "use" :: (Tree.tokensAll parts ++ Token.code [";"] ++ rest)) = _
  rw [List.append_assoc, Token.leaves, Token.name, Token.leaf?, huse, Bool.not_true, Bool.and_false]
  rfl

end CodePath

/-! ## Names that a unit binds -/

namespace GeneratedUnit

/-- The `use` items that a unit starts with. -/
def useItems (u : GeneratedUnit) : List Token :=
  coreImports ++ u.imports.flatMap fun p => Token.code ["use"] ++ p.tokens ++ Token.code [";"]

/-- The names that they bind one by one; a plain and a raw spelling are one name. -/
def binds (u : GeneratedUnit) : List String := (Token.leaves u.useItems).map Emit.plainWord

/-- The names that every unit binds. -/
def coreNames : List String :=
  ["Arc", "Context", "OnChangeListener", "PreferenceActions", "SharedPreferences"]

theorem leaves_coreImports (rest : List Token) :
    Token.leaves (coreImports ++ rest) = coreNames ++ Token.leaves rest := by
  rw [Token.leaves_append (by decide +kernel)]
  exact congrArg (· ++ _) (by decide +kernel)

theorem leaves_imports {imports : List CodePath}
    (h : ∀ p ∈ imports, CodePath.read p.text = .ok p ∧ QualifiedName.Plain p.text) :
    Token.leaves (imports.flatMap fun p => Token.code ["use"] ++ p.tokens ++ Token.code [";"])
      = imports.map fun p => QualifiedName.simple p.text := by
  induction imports with
  | nil => rfl
  | cons p imports ih =>
    obtain ⟨⟨hread, hplain⟩, h⟩ := List.forall_mem_cons.1 h
    rw [List.flatMap_cons, CodePath.leaves_use hread hplain, ih h, List.map_cons]

end GeneratedUnit

namespace Emit

variable {t : Target} {store : StoreConfig} {specs : List AccessorSpec}

/-- The name that the import of a path binds. -/
def importedName (path : String) : String := plainWord (QualifiedName.simple path)

theorem isSegment_of_head {w : String} {c : Char} {cs : List Char} (hw : w.toList = c :: cs)
    (hident : isIdentifier w = true) (hc : Lexer.isGap c = false ∧ c.toNat ≠ 0xFEFF)
    (hkeyword : Token.isKeyword w = false) : TypeRef.IsSegment False w :=
  ⟨Lexer.isWord_of_head hw hident hc, .inl hkeyword⟩

theorem plain_api (last : String) (hlast : TypeRef.IsSegment False last)
    (hkeyword : Token.isKeyword last = false) :
    QualifiedName.Plain (QualifiedName.ofSegments (["prefs_api"] ++ [last])) :=
  ⟨["prefs_api"], last, rfl,
    ⟨isSegment_of_head rfl (by decide) (by decide) (by decide), hlast⟩, hkeyword⟩

/-- What a unit imports are plain paths. -/
theorem Imports.plain (hserializer : ∀ path, t.serializer = some path → QualifiedName.Plain path)
    {path : String} (h : Imports t store specs path) : QualifiedName.Plain path := by
  cases h with
  | storeMode =>
    exact plain_api "StoreMode" (isSegment_of_head rfl (by decide) (by decide) (by decide))
      (by decide)
  | hashSet =>
    exact ⟨["std", "collections"], "HashSet", rfl,
      ⟨isSegment_of_head rfl (by decide) (by decide) (by decide),
        isSegment_of_head rfl (by decide) (by decide) (by decide),
        isSegment_of_head rfl (by decide) (by decide) (by decide)⟩, by decide⟩
  | build =>
    exact plain_api "build" (isSegment_of_head rfl (by decide) (by decide) (by decide)) (by decide)
  | compat =>
    exact plain_api "compat" (isSegment_of_head rfl (by decide) (by decide) (by decide)) (by decide)
  | serializer _ hpath => exact hserializer path hpath

/-- The names that a unit binds: those of every unit, and the last name of each path that it
imports. -/
theorem binds_eq (hserializer : ∀ path, t.serializer = some path → QualifiedName.Plain path)
    {u : GeneratedUnit} (hread : ∀ p ∈ u.imports, CodePath.read p.text = .ok p)
    (himports : ∀ path ∈ u.imports.map CodePath.text, Imports t store specs path) :
    u.binds = GeneratedUnit.coreNames ++ (u.imports.map CodePath.text).map importedName := by
  have hplain : ∀ p ∈ u.imports, CodePath.read p.text = .ok p ∧ QualifiedName.Plain p.text :=
    fun p hp => ⟨hread p hp, (himports _ (List.mem_map_of_mem hp)).plain hserializer⟩
  have hcore : GeneratedUnit.coreNames.map plainWord = GeneratedUnit.coreNames := by
    decide +kernel
  rw [GeneratedUnit.binds, GeneratedUnit.useItems, GeneratedUnit.leaves_coreImports,
    GeneratedUnit.leaves_imports hplain, List.map_append, hcore, List.map_map, List.map_map]
  rfl

/-- Two names of a unit are one: the serializer's last name is bound by every unit, or by another
import. -/
def Clash (t : Target) (store : StoreConfig) (specs : List AccessorSpec) : Prop :=
  ∃ path, t.serializer = some path ∧ Imports t store specs path ∧
    (importedName path ∈ GeneratedUnit.coreNames ∨
      ∃ other, Imports t store specs other ∧ other ≠ path ∧ importedName other = importedName path)

/-- Imports that are not the serializer bind names of their own. -/
def fixedImports : List String :=
  ["prefs_api::StoreMode", "std::collections::HashSet", "prefs_api::build", "prefs_api::compat"]

theorem Imports.cases {path : String} (h : Imports t store specs path) :
    path ∈ fixedImports ∨ t.serializer = some path := by
  cases h with
  | serializer _ hpath => exact .inr hpath
  | _ => exact .inl (by decide)

theorem fixedImports_apart : fixedImports.map importedName |>.Nodup := by
  decide +kernel

theorem fixedImports_not_core {path : String} (h : path ∈ fixedImports) :
    importedName path ∉ GeneratedUnit.coreNames := by
  revert path
  decide +kernel

/-- Only the serializer's last name can be bound twice. -/
theorem importedNames_nodup_iff {paths : List String} (hpaths : paths.Nodup)
    (hmem : ∀ path, path ∈ paths ↔ Imports t store specs path) :
    (GeneratedUnit.coreNames ++ paths.map importedName).Nodup ↔ ¬Clash t store specs := by
  rw [List.nodup_append]
  constructor
  · rintro ⟨-, hnames, hcore⟩ ⟨path, -, hpath, hclash | ⟨other, hother, hne, heq⟩⟩
    · exact hcore _ hclash _ (List.mem_map_of_mem ((hmem path).2 hpath)) rfl
    · exact hne (List.inj_on_of_nodup_map hnames ((hmem other).2 hother) ((hmem path).2 hpath) heq)
  · intro hclash
    refine ⟨by decide, hpaths.map_on ?_, ?_⟩
    · intro a ha b hb heq
      by_contra hne
      rw [hmem] at ha hb
      rcases ha.cases with hafixed | haserializer
      · rcases hb.cases with hbfixed | hbserializer
        · exact hne (List.inj_on_of_nodup_map fixedImports_apart hafixed hbfixed heq)
        · exact hclash ⟨b, hbserializer, hb, .inr ⟨a, ha, hne, heq⟩⟩
      · exact hclash ⟨a, haserializer, ha, .inr ⟨b, hb, Ne.symm hne, heq.symm⟩⟩
    · rintro name hname _ hbound rfl
      obtain ⟨path, hpath, rfl⟩ := List.mem_map.1 hbound
      rw [hmem] at hpath
      rcases hpath.cases with hfixed | hserializer
      · exact fixedImports_not_core hfixed hname
      · exact hclash ⟨path, hserializer, hpath, .inl hname⟩

end Emit

/-! ## Items of a module -/

namespace Source.Tree

/-- The name that a path starts with, unless it starts with `::`. -/
def head? : List Tree → Option String
  | lead :: first :: _ => if lead.isAbsent then some (first.part 0).word else none
  | _ => none

mutual

/-- The names that the paths in a tree start with. -/
def heads : Tree → List String
  | .node .path parts => (head? parts).toList ++ headsAll parts
  | .node _ parts => headsAll parts
  | .group _ body _ _ => headsAll body
  | .run _ => []

def headsAll : List Tree → List String
  | [] => []
  | t :: rest => heads t ++ headsAll rest

end

/-- The name that an item declares. -/
def itemName? (item : Tree) : Option String :=
  match item.kind? with
  | some .itemStruct | some .itemTuple | some .itemEnum | some .itemTraitAlias
  | some .foreignType => some (item.part 3).word
  | some .itemMod | some .itemType | some .itemConst | some .itemStatic => some (item.part 4).word
  | some .itemTrait => some (item.part 5).word
  | some .itemFn => some ((item.part 3).part 2).word
  | some .itemCrate => some (if (item.part 6).isAbsent then item.part 4 else item.part 6).word
  | _ => none

/-- The names that an item declares in its module. Those in a foreign block are declared around
it. -/
def itemNames (item : Tree) : List String :=
  if item.isKind .itemForeign then ((item.part 3).parts.drop 1).filterMap itemName?
  else item.itemName?.toList

end Source.Tree

/-- An item of the module that declares an interface. -/
inductive Beside (interface : String) : List String → List Tree → Tree → Prop
  | here {module : List String} {items : List Tree} {item sibling : Tree} : item ∈ items →
      item.kind? = some .itemTrait →
      interface = QualifiedName.ofSegments ("crate" :: module ++ [(item.part 5).word]) →
      sibling ∈ items → Beside interface module items sibling
  | inside {module : List String} {items : List Tree} {outer sibling : Tree} :
      outer ∈ items → outer.kind? = some .itemMod →
      Beside interface (module ++ [(outer.part 4).word]) ((outer.part 5).parts.drop 1) sibling →
      Beside interface module items sibling

/-- A source declares an item of the name in the module that declares the interface. -/
def SourceText.DeclaresBeside (s : SourceText) (interface name : String) : Prop :=
  ∃ trees item, readFile s.text = .ok trees ∧ Beside interface s.module (trees.drop 1) item ∧
    ∃ n ∈ item.itemNames, Emit.plainWord n = name

namespace Emit

/-- The type of a value names something of the root's own module. -/
def OwnType (sources : List SourceText) (root : InterfaceDecl) (specs : List AccessorSpec)
    (name : String) : Prop :=
  (∃ source ∈ sources, source.DeclaresBeside root.name name) ∧
    ∃ s ∈ specs, ∃ type, readType s.type.text = .ok type ∧
      ∃ head ∈ type.heads, plainWord head = name

/-- The names that a unit binds one by one are those of every unit and the last names of its
imports. They are different, and hide nothing of the root's module that the type of a value names,
exactly when the serializer's last name is bound once, and no such thing has one of the names. -/
theorem unit_binds_iff (w : World) (t : Target) (root : InterfaceDecl) (u : GeneratedUnit)
    (sources : List SourceText) (hu : unit t root (Walk.ofRoot w root) = .ok u)
    (hserializer : ∀ path, t.serializer = some path → QualifiedName.Plain path) :
    (∀ name, name ∈ u.binds ↔ name ∈ GeneratedUnit.coreNames ∨
      ∃ path, Imports t (root.store.getD {}) (Walk.ofRoot w root).outcome.specs path ∧
        importedName path = name) ∧
    ((u.binds.Nodup ∧
        ∀ name ∈ u.binds, ¬OwnType sources root (Walk.ofRoot w root).outcome.specs name) ↔
      ¬Clash t (root.store.getD {}) (Walk.ofRoot w root).outcome.specs ∧
        ∀ name, OwnType sources root (Walk.ofRoot w root).outcome.specs name →
          name ∉ GeneratedUnit.coreNames ∧
          ∀ path, Imports t (root.store.getD {}) (Walk.ofRoot w root).outcome.specs path →
            importedName path ≠ name) := by
  obtain ⟨htexts, hread⟩ := unit_paths hu
  have hmem (path : String) : path ∈ u.imports.map CodePath.text ↔
      Imports t (root.store.getD {}) (Walk.ofRoot w root).outcome.specs path := by
    rw [htexts, mem_unitImports]
  have hbinds := binds_eq hserializer hread fun path => (hmem path).1
  have hname (name : String) : name ∈ u.binds ↔ name ∈ GeneratedUnit.coreNames ∨
      ∃ path, Imports t (root.store.getD {}) (Walk.ofRoot w root).outcome.specs path ∧
        importedName path = name := by
    simp only [hbinds, List.mem_append, List.mem_map (f := importedName), hmem]
  have hnodup : (u.imports.map CodePath.text).Nodup := by
    rw [htexts]
    exact (Text.Sorted.pairwise_ofList _).imp fun h => ne_of_lt h
  refine ⟨hname, and_congr ?_ (forall_congr' fun name => ?_)⟩
  · rw [hbinds]
    exact importedNames_nodup_iff hnodup hmem
  · rw [hname]
    constructor
    · intro hhidden hown
      exact ⟨fun hcore => hhidden (.inl hcore) hown,
        fun path hpath heq => hhidden (.inr ⟨path, hpath, heq⟩) hown⟩
    · rintro hapart (hcore | ⟨path, hpath, heq⟩) hown
      · exact (hapart hown).1 hcore
      · exact (hapart hown).2 path hpath heq

/-! A module with a type of its own that has a name which every unit binds. -/

def contextSource : SourceText :=
  ⟨[], none, "struct Context; #[preferences] trait Settings \x7b fn context(&self) -> Context; \x7d"⟩

def contextTarget : Target := { serializer := some "prefs_api::serializer" }

/-- Whether a root without ancestors, of the items of a source, has a unit in which the type of a
value names something that the source declares. -/
def namesOwnType (trees : List Tree) (root : InterfaceDecl) (name : String) : Bool :=
  let walk := ({} : Walk).visit (worldOf contextTarget root) (.declared root)
  root.ancestors.isEmpty && (unit contextTarget root walk).isOk
    && (trees.drop 1).any (fun item => item.kind? == some .itemTrait
      && root.name == QualifiedName.ofSegments ["crate", (item.part 5).word])
    && (trees.drop 1).any (fun item => item.itemNames.any fun n => plainWord n == name)
    && walk.outcome.specs.any fun s => match readType s.type.text with
      | .ok type => type.heads.any fun head => plainWord head == name
      | .error _ => false

theorem context_evaluated :
    (match Declarations.ofSources [contextSource], readFile contextSource.text with
      | .ok ds, .ok trees => ds.interfaces.any fun root => namesOwnType trees root "Context"
      | _, _ => false) = true := by
  decide +kernel

theorem ownType_of_namesOwnType {source : SourceText} (hmodule : source.module = [])
    {trees : List Tree} (htrees : readFile source.text = .ok trees) {root : InterfaceDecl}
    {name : String} (h : namesOwnType trees root name = true) :
    Walk.ofRoot (worldOf contextTarget root) root
      = ({} : Walk).visit (worldOf contextTarget root) (.declared root) ∧
    (unit contextTarget root (Walk.ofRoot (worldOf contextTarget root) root)).isOk = true ∧
    OwnType [source] root (Walk.ofRoot (worldOf contextTarget root) root).outcome.specs name := by
  simp only [namesOwnType, Bool.and_eq_true, List.any_eq_true, beq_iff_eq, List.isEmpty_iff] at h
  obtain ⟨⟨⟨⟨halone, hok⟩, item, hitem, hkind, hroot⟩, sibling, hsibling, n, hn, hname⟩,
    s, hs, htype⟩ := h
  have hwalk := Walk.ofRoot_alone (w := worldOf contextTarget root) halone
  rw [hwalk]
  refine ⟨rfl, hok, ⟨source, List.mem_singleton.2 rfl, trees, sibling, htrees, ?_, n, hn, hname⟩,
    s, hs, ?_⟩
  · rw [hmodule]
    exact .here hitem hkind hroot hsibling
  · split at htype
    · next type hread =>
      obtain ⟨head, hhead, heq⟩ := List.any_eq_true.1 htype
      exact ⟨type, hread, head, hhead, beq_iff_eq.1 heq⟩
    · cases htype

theorem unit_binds_iff_context : ∃ ds root u, Declarations.ofSources [contextSource] = .ok ds ∧
    root ∈ ds.interfaces ∧
    unit contextTarget root (Walk.ofRoot (worldOf contextTarget root) root) = .ok u ∧
    "Context" ∈ u.binds ∧
    OwnType [contextSource] root (Walk.ofRoot (worldOf contextTarget root) root).outcome.specs
      "Context" := by
  have hevaluated := context_evaluated
  split at hevaluated
  · next ds trees hds htrees =>
    obtain ⟨root, hroot, hnames⟩ := List.any_eq_true.1 hevaluated
    obtain ⟨hwalk, hok, hown⟩ := ownType_of_namesOwnType rfl htrees hnames
    obtain ⟨u, hu⟩ := exists_of_isOk hok
    have hplain : ∀ path, contextTarget.serializer = some path → QualifiedName.Plain path := by
      rintro path ⟨⟩
      exact plain_api "serializer"
        (isSegment_of_head rfl (by decide) (by decide) (by decide)) (by decide)
    obtain ⟨hbinds, -⟩ := unit_binds_iff _ _ _ _ [contextSource] hu hplain
    exact ⟨ds, root, u, hds, hroot, hu, (hbinds _).2 (.inl (by decide)), hown⟩
  · cases hevaluated

end Emit

end TypedSettings
