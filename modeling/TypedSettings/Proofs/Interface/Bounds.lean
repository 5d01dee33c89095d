import TypedSettings.Proofs.Unit.Assembly

/-!
The bounds of an interface as they are written, and what a walk makes of them. A plain bound whose
last name is no marker becomes a reference of the interface, with the names that it may stand for
in the module of the interface. A bound with the last name of a marker becomes none, whatever it
stands for: the last name is looked at before any name is looked up.

* `mem_ofItem_ancestors`: the references of an interface are its plain bounds, less the markers.
* `exists_declaresIn`: a declaration is read off an item in the scope of the item's module.
* `ofRoot_bounds`: a walk follows every such reference that stands for an interface, and what the
  interface declares is generated or reported.
-/

namespace TypedSettings

open Source

/-! ## Bounds -/

namespace InterfaceDecl

/-- A bound without modifier, alone or in parentheses, with the path that it names. -/
inductive PlainBound : Tree → String → Prop
  | alone {maybe params path : Tree} : maybe.isAbsent = true →
      PlainBound (.node .bound [maybe, params, path]) (QualifiedName.ofSegments (pathNames path))
  | inParens {maybe params path : Tree} {d : Delimiter} {pos close : Position} :
      maybe.isAbsent = true →
      PlainBound (.node .parenBound [.group d [.node .bound [maybe, params, path]] pos close])
        (QualifiedName.ofSegments (pathNames path))

/-- The bounds that the item of an interface is written with. -/
def bounds (item : Tree) : List Tree := Tree.members (item.part 8).parts

theorem boundPath?_eq_some_iff {bound : Tree} {path : String} :
    boundPath? bound = some path ↔ PlainBound bound path := by
  constructor
  · intro h
    unfold boundPath? at h
    split at h
    · next inner _ _ =>
      dsimp only at h
      split at h
      · split at h
        · next hmaybe =>
          cases h
          exact .inParens hmaybe
        · cases h
      · cases h
    · dsimp only at h
      split at h
      · split at h
        · next hmaybe =>
          cases h
          exact .alone hmaybe
        · cases h
      · cases h
  · rintro (hmaybe | hmaybe)
    · simp [boundPath?, hmaybe]
    · simp [boundPath?, hmaybe]

/-- The references of an interface are its plain bounds, less those with the last name of a
marker. -/
theorem mem_ofItem_ancestors {name : String} {file : Option String}
    {resolve : String → List String} {item : Tree} {a : AncestorRef} :
    a ∈ (ofItem name file resolve item).ancestors ↔
      ∃ bound ∈ bounds item, ∃ path, PlainBound bound path ∧
        QualifiedName.simple path ∉ markers ∧ a = ⟨path, resolve path⟩ := by
  have hancestors : (ofItem name file resolve item).ancestors
      = (ancestorPaths (item.part 8)).map fun p => ⟨p, resolve p⟩ := by
    unfold ofItem
    rw [(foldl_addMember_frame file _ _).2]
    split
    · rfl
    · split <;> rfl
  rw [hancestors, List.mem_map]
  constructor
  · rintro ⟨path, hpath, rfl⟩
    obtain ⟨hpath, hmarker⟩ := List.mem_filter.1 hpath
    obtain ⟨bound, hbound, hplain⟩ := List.mem_filterMap.1 hpath
    exact ⟨bound, hbound, path, boundPath?_eq_some_iff.1 hplain, by simpa using hmarker, rfl⟩
  · rintro ⟨bound, hbound, path, hplain, hmarker, rfl⟩
    refine ⟨path, List.mem_filter.2 ⟨?_, by simpa using hmarker⟩, rfl⟩
    exact List.mem_filterMap.2 ⟨bound, hbound, boundPath?_eq_some_iff.2 hplain⟩

end InterfaceDecl

/-! ## The module of a declaration -/

/-- `inner`, with its items, is a module or stands inside it. -/
inductive Encloses : List String → List Tree → List String → List Tree → Prop
  | self {module : List String} {items : List Tree} : Encloses module items module items
  | inside {module inner : List String} {items innerItems : List Tree} {outer : Tree} :
      outer ∈ items → outer.kind? = some .itemMod →
      Encloses (module ++ [(outer.part 4).word]) ((outer.part 5).parts.drop 1) inner innerItems →
      Encloses module items inner innerItems

theorem Encloses.eq_self {module inner : List String} {items innerItems : List Tree}
    (h : Encloses module items inner innerItems)
    (hflat : ∀ t ∈ items, t.kind? ≠ some .itemMod) : module = inner ∧ items = innerItems := by
  cases h with
  | self => exact ⟨rfl, rfl⟩
  | inside houter hkind _ => exact absurd hkind (hflat _ houter)

/-- A declaration is read off an item of a source, where `scope` has the names that the item's
module sees. -/
def SourceText.DeclaresIn (s : SourceText) (scope : Scope) (item : Tree) (d : InterfaceDecl) :
    Prop :=
  ∃ trees module items, readFile s.text = .ok trees ∧
    Encloses s.module (trees.drop 1) module items ∧
    scope = Scope.ofItems module items ∧ item ∈ items ∧ item.kind? = some .itemTrait ∧
    d = InterfaceDecl.ofItem (QualifiedName.ofSegments ("crate" :: module ++ [(item.part 5).word]))
      s.file scope.resolve item

namespace Declarations

theorem exists_enclosed {file : Option String} {fuel : Nat} {module : List String}
    {items : List Tree} {d : InterfaceDecl} (h : d ∈ ofItemsFuel file fuel module items) :
    ∃ inner innerItems item, Encloses module items inner innerItems ∧ item ∈ innerItems ∧
      item.kind? = some .itemTrait ∧
      d = InterfaceDecl.ofItem (QualifiedName.ofSegments ("crate" :: inner ++ [(item.part 5).word]))
        file (Scope.ofItems inner innerItems).resolve item := by
  induction fuel generalizing module items with
  | zero => cases h
  | succ fuel ih =>
    rw [ofItemsFuel] at h
    obtain ⟨item, hitem, hd⟩ := List.mem_flatMap.1 h
    split at hd
    · next hkind => exact ⟨module, items, item, .self, hitem, hkind, List.mem_singleton.1 hd⟩
    · next hkind =>
      obtain ⟨inner, innerItems, innerItem, hencloses, hinner⟩ := ih hd
      exact ⟨inner, innerItems, innerItem, .inside hitem hkind hencloses, hinner⟩
    · cases hd

/-- A declaration is read off an item of one of the sources, in the scope of the item's module. -/
theorem exists_declaresIn {sources : List SourceText} {ds : Declarations} {d : InterfaceDecl}
    (h : ofSources sources = .ok ds) (hd : d ∈ ds.interfaces) :
    ∃ s ∈ sources, ∃ scope item, s.DeclaresIn scope item d := by
  obtain ⟨s, hs, found, hfound, hmem⟩ := exists_found h hd
  unfold ofText at hfound
  split at hfound
  · cases hfound
  · next trees htrees =>
    cases hfound
    obtain ⟨module, items, item, hencloses, hitem, hkind, heq⟩ := exists_enclosed hmem
    exact ⟨s, hs, _, item, trees, module, items, htrees, hencloses, rfl, hitem, hkind, heq⟩

end Declarations

/-! ## References that are followed -/

namespace World

variable {w : World} {a : AncestorRef}

/-- A reference resolves when one of the names that it may stand for is known. -/
theorem exists_resolve?_eq_some (h : ∃ c ∈ a.candidates, w.knows c = true) :
    ∃ r, w.resolve? a = some r := by
  obtain ⟨c, hc, hknown⟩ := h
  unfold resolve?
  cases hd : a.candidates.findSome? w.declarations.get? with
  | some d => exact ⟨_, rfl⟩
  | none =>
    have hfree : w.declarations.get? c = none := List.findSome?_eq_none_iff.1 hd c hc
    have hregistered : (w.registry.get? c).isSome = true := by
      simpa [knows, Declarations.contains, Registry.contains, hfree] using hknown
    cases he : a.candidates.findSome? w.registry.get? with
    | some e => exact ⟨_, rfl⟩
    | none =>
      rw [List.findSome?_eq_none_iff.1 he c hc] at hregistered
      cases hregistered

end World

namespace Walk

/-- What an interface declares is not lost: a method is an accessor of the walk, and then a method
of the block of the interface in every unit, or a problem is attributed to it; and every annotation
that could not be read is a problem. -/
structure Generates (w : World) (root : InterfaceDecl) (r : Reached) : Prop where
  methods : ∀ m ∈ r.methods,
    (∃ s ∈ (ofRoot w root).outcome.specs, s.interface = r.name ∧ s.method = m.name ∧
      ∀ t u, Emit.unit t root (ofRoot w root) = .ok u →
        ∃ b ∈ u.impls, b.interface = r.name ∧ ∃ g ∈ b.methods, GeneratedUnit.Emitted t s g) ∨
    (∃ p ∈ (ofRoot w root).outcome.problems,
      p.attribution? = some (.ofMethod r.name m.name m.location))
  issues : ∀ i ∈ r.issues, issueProblem r i ∈ (ofRoot w root).outcome.problems

theorem generates_of_mem {w : World} {root : InterfaceDecl} {order : List Reached}
    {events : List Event} {results : List (Except Problem AccessorSpec)}
    (hpre : w.Preorder [] [.declared root] order) (haccount : Account w root order events results)
    {r : Reached} (hr : r ∈ order) : Generates w root r := by
  constructor
  case methods =>
    intro m hm
    have hmem : (r, m) ∈ methodsOf order :=
      List.mem_flatMap.2 ⟨r, hr, List.mem_map.2 ⟨m, hm, rfl⟩⟩
    obtain ⟨result, hresult, hconcerns⟩ := exists_of_forall₂ haccount.concerns hmem
    cases result with
    | error p =>
      have hp : p ∈ (ofRoot w root).outcome.problems.filter Problem.isOfMethod := by
        rw [haccount.problems]
        exact List.mem_filterMap.2 ⟨.error p, hresult, rfl⟩
      exact .inr ⟨p, (List.mem_filter.1 hp).1, hconcerns⟩
    | ok s =>
      obtain ⟨hinterface, hmethod⟩ := hconcerns
      have hs : s ∈ (ofRoot w root).outcome.specs := by
        rw [haccount.specs]
        exact List.mem_filterMap.2 ⟨.ok s, hresult, rfl⟩
      refine .inl ⟨s, hs, hinterface, hmethod, ?_⟩
      intro t u hu
      have hfaithful := GeneratedUnit.faithful_of_account hpre haccount hu
      obtain ⟨b, hb, hname, hmethods⟩ := exists_of_forall₂ hfaithful.blocks hr
      have hown : s ∈ (ofRoot w root).outcome.specs.filter fun s => s.interface == r.name :=
        List.mem_filter.2 ⟨hs, beq_iff_eq.2 hinterface⟩
      exact ⟨b, hb, hname, exists_of_forall₂ hmethods hown⟩
  case issues =>
    intro i hi
    have hmem : issueProblem r i
        ∈ (ofRoot w root).outcome.problems.filter Problem.isOfAttribute := by
      rw [haccount.issues]
      exact List.mem_map.2 ⟨(r, i), mem_issuesOf.2 ⟨hr, hi⟩, rfl⟩
    exact (List.mem_filter.1 hmem).1

/-- Of what its name stands for, a walk lists exactly the name of what the root reaches. -/
theorem mem_interfaces_iff {w : World} {root : InterfaceDecl} {order : List Reached}
    {events : List Event} {results : List (Except Problem AccessorSpec)}
    (hpre : w.Preorder [] [.declared root] order) (haccount : Account w root order events results)
    (hroot : w.Stands (.declared root)) {r : Reached} (hr : w.Stands r) :
    r.name ∈ (ofRoot w root).interfaces ↔ w.Reaches (.declared root) r := by
  rw [haccount.interfaces, ← hpre.mem_iff hroot, List.mem_map]
  constructor
  · rintro ⟨q, hq, hname⟩
    have hstands := ((hpre.mem_iff hroot q).1 hq).stands hroot
    rw [← hstands.eq_of_name hr hname]
    exact hq
  · intro hmem
    exact ⟨r, hmem, rfl⟩

theorem root_mem_interfaces (w : World) (root : InterfaceDecl) :
    root.name ∈ (ofRoot w root).interfaces := by
  obtain ⟨order, events, results, hpre, haccount⟩ := exists_account w root
  have hlisted := hpre.todo_listed (.declared root) List.mem_cons_self
  rw [List.nil_append, ← haccount.interfaces] at hlisted
  exact hlisted

/-- A walk follows the plain bounds of every declaration that it visits, those with the last name
of a marker left out: where a name that the bound may stand for is known, and the bound does not
stand for the actions, the interface that it stands for is visited and what that declares is
generated. What a bound with the last name of a marker stands for is visited only where another
reference leads to it. -/
theorem ofRoot_bounds (sources : List SourceText) (registry : Registry)
    (serializer : Option String) (ds : Declarations) (root : InterfaceDecl)
    (hsources : Declarations.ofSources sources = .ok ds)
    (hroot : ds.get? root.name = some root) :
    let w : World := ⟨ds, registry, serializer⟩
    ∀ d, ds.get? d.name = some d → d.name ∈ (ofRoot w root).interfaces →
      (∃ s ∈ sources, ∃ scope item, s.DeclaresIn scope item d) ∧
      ∀ (s : SourceText) (scope : Scope) (item : Tree), s.DeclaresIn scope item d →
        ∀ bound ∈ InterfaceDecl.bounds item, ∀ path, InterfaceDecl.PlainBound bound path →
          let a : AncestorRef := ⟨path, scope.resolve path⟩
          (a ∈ d.ancestors ↔ a.simpleName ∉ InterfaceDecl.markers) ∧
          (a.simpleName ∉ InterfaceDecl.markers → w.isContract a = false →
            (∃ c ∈ a.candidates, w.knows c = true) →
            ∃ r, w.resolve? a = some r ∧ r.name ∈ (ofRoot w root).interfaces ∧
              Generates w root r) ∧
          (∀ r, w.resolve? a = some r →
            (r.name ∈ (ofRoot w root).interfaces ↔ w.Reaches (.declared root) r)) := by
  intro w d hd hvisited
  obtain ⟨order, events, results, hpre, haccount⟩ := exists_account w root
  have hstands : w.Stands (.declared root) := hroot
  have hreach : w.Reaches (.declared root) (.declared d) :=
    (mem_interfaces_iff hpre haccount hstands (show w.Stands (.declared d) from hd)).1 hvisited
  refine ⟨Declarations.exists_declaresIn hsources (List.mem_of_find?_eq_some hd), ?_⟩
  rintro s scope item ⟨trees, module, items, -, -, -, -, -, heq⟩ bound hbound path hplain a
  have hmem : a ∈ d.ancestors ↔ a.simpleName ∉ InterfaceDecl.markers := by
    rw [heq, InterfaceDecl.mem_ofItem_ancestors]
    constructor
    · rintro ⟨_, -, path', -, hmarker, ha⟩
      rw [ha]
      exact hmarker
    · intro hmarker
      exact ⟨bound, hbound, path, hplain, hmarker, rfl⟩
  refine ⟨hmem, ?_, ?_⟩
  · intro hmarker hcontract hknown
    obtain ⟨r, hr⟩ := World.exists_resolve?_eq_some hknown
    have hedge : w.Edge (.declared d) r := ⟨a, hmem.2 hmarker, hcontract, hr⟩
    have hreached : w.Reaches (.declared root) r := hreach.tail hedge
    refine ⟨r, hr, ?_, generates_of_mem hpre haccount ((hpre.mem_iff hstands r).2 hreached)⟩
    exact (mem_interfaces_iff hpre haccount hstands (World.stands_of_resolve? hr)).2 hreached
  · intro r hr
    exact mem_interfaces_iff hpre haccount hstands (World.stands_of_resolve? hr)

/-! A root with two bounds, both of declared interfaces: the first is followed, and the second has
the name of a marker. -/

def jukebox : SourceText :=
  ⟨[], none, "trait Audio {} trait Sync {} #[preferences] trait Jukebox: (Audio) + Sync {}"⟩

def jukeboxTrees : List Tree := (readFile jukebox.text).toOption.getD []

def jukeboxDeclarations : Declarations := (Declarations.ofSources [jukebox]).toOption.getD {}

def jukeboxWorld : World := ⟨jukeboxDeclarations, {}, none⟩

theorem jukeboxTrees_evaluated :
    ((jukeboxTrees.drop 1).all fun t => t.kind? != some .itemMod) = true ∧
    ((jukeboxTrees.drop 1).all fun t =>
      QualifiedName.ofSegments ["crate", (t.part 5).word] != "crate::Jukebox" ||
        (["Audio", "Sync"].all fun path => (InterfaceDecl.bounds t).any fun bound =>
          InterfaceDecl.boundPath? bound == some path)) = true ∧
    (["Audio", "Sync"].map (Scope.ofItems [] (jukeboxTrees.drop 1)).resolve)
      = [["crate::Audio"], ["crate::Sync"]] := by
  decide +kernel

theorem jukeboxWorld_evaluated :
    (Declarations.ofSources [jukebox]).isOk = true ∧
    (jukeboxDeclarations.get? "crate::Jukebox").isSome = true ∧
    jukeboxWorld.isContract ⟨"Audio", ["crate::Audio"]⟩ = false ∧
    (jukeboxWorld.resolve? ⟨"Audio", ["crate::Audio"]⟩).map Reached.name = some "crate::Audio" ∧
    jukeboxWorld.knows "crate::Audio" = true ∧ jukeboxWorld.knows "crate::Sync" = true := by
  decide +kernel

theorem jukebox_declaresIn {scope : Scope} {item : Tree} {d : InterfaceDecl}
    (h : jukebox.DeclaresIn scope item d) (hd : d.name = "crate::Jukebox") :
    scope.resolve "Audio" = ["crate::Audio"] ∧ scope.resolve "Sync" = ["crate::Sync"] ∧
      ∀ path ∈ ["Audio", "Sync"], ∃ bound ∈ InterfaceDecl.bounds item,
        InterfaceDecl.PlainBound bound path := by
  obtain ⟨trees, module, items, htrees, hencloses, hscope, hitem, -, heq⟩ := h
  obtain ⟨hflat, hbounds, hresolve⟩ := jukeboxTrees_evaluated
  have hread : jukeboxTrees = trees := by
    rw [jukeboxTrees, htrees]
    rfl
  rw [hread] at hflat hbounds hresolve
  obtain ⟨rfl, rfl⟩ := hencloses.eq_self fun t ht => by simpa using List.all_eq_true.1 hflat t ht
  rw [show jukebox.module = [] from rfl] at hscope heq
  rw [List.map_cons, List.map_cons, ← hscope] at hresolve
  injection hresolve with haudio hresolve
  injection hresolve with hsync
  refine ⟨haudio, hsync, fun path hpath => ?_⟩
  have hname : QualifiedName.ofSegments ["crate", (item.part 5).word] = "crate::Jukebox" := by
    rw [← hd, heq, InterfaceDecl.ofItem_name]
    rfl
  have hall := List.all_eq_true.1 hbounds item hitem
  rw [hname, bne_self_eq_false, Bool.false_or] at hall
  obtain ⟨bound, hbound, hplain⟩ := List.any_eq_true.1 (List.all_eq_true.1 hall path hpath)
  exact ⟨bound, hbound, InterfaceDecl.boundPath?_eq_some_iff.1 (beq_iff_eq.1 hplain)⟩

theorem ofRoot_bounds_jukebox : ∃ root,
    Declarations.ofSources [jukebox] = .ok jukeboxDeclarations ∧
    jukeboxDeclarations.get? root.name = some root ∧ root.name = "crate::Jukebox" ∧
    "crate::Audio" ∈ (ofRoot jukeboxWorld root).interfaces ∧
    jukeboxWorld.knows "crate::Sync" = true ∧ ⟨"Sync", ["crate::Sync"]⟩ ∉ root.ancestors := by
  obtain ⟨hok, hsome, hcontract, hresolve, hknown, hknown'⟩ := jukeboxWorld_evaluated
  have hsources : Declarations.ofSources [jukebox] = .ok jukeboxDeclarations := by
    obtain ⟨ds, hds⟩ := exists_of_isOk hok
    rw [jukeboxDeclarations, hds]
    rfl
  obtain ⟨root, hget⟩ := Option.isSome_iff_exists.1 hsome
  have hname := World.name_of_get? hget
  have hroot : jukeboxDeclarations.get? root.name = some root := by
    rw [hname]
    exact hget
  obtain ⟨⟨s, hs, scope, item, hdeclares⟩, hbounds⟩ :=
    ofRoot_bounds [jukebox] {} none jukeboxDeclarations root hsources hroot root hroot
      (root_mem_interfaces _ root)
  rw [List.mem_singleton] at hs
  subst hs
  obtain ⟨haudio, hsync, hplain⟩ := jukebox_declaresIn hdeclares hname
  refine ⟨root, hsources, hroot, hname, ?_, hknown', ?_⟩
  · obtain ⟨bound, hbound, hpath⟩ := hplain "Audio" (by simp)
    obtain ⟨-, hfollowed, -⟩ := hbounds _ scope item hdeclares bound hbound "Audio" hpath
    rw [haudio] at hfollowed
    obtain ⟨r, hr, hmem, -⟩ := hfollowed (by decide +kernel) hcontract
      ⟨"crate::Audio", List.mem_singleton_self _, hknown⟩
    have hrname := (congrArg (Option.map Reached.name) hr).symm.trans hresolve
    exact Option.some.inj hrname ▸ hmem
  · obtain ⟨bound, hbound, hpath⟩ := hplain "Sync" (by simp)
    obtain ⟨hiff, -, -⟩ := hbounds _ scope item hdeclares bound hbound "Sync" hpath
    rw [hsync] at hiff
    exact fun hmem => hiff.1 hmem (by decide +kernel)

end Walk

end TypedSettings
