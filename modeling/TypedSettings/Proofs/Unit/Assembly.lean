import TypedSettings.Proofs.Interface.Written
import TypedSettings.Proofs.Report
import TypedSettings.Proofs.Walk.Account
import TypedSettings.Unit.Assembly

/-!
The unit of a root and the walk it is made of. A unit selects the accessors of a block by the name
of its interface; no two interfaces of a walk have one name, and the accessors of an interface
stand together, so that nothing is lost, doubled or moved.

* `getter_eq_ok`, `putter_eq_ok`: the methods that accessors become.
* `assembled`: what the parts of a unit are made of.
* `exists_accessors`: the accessors of a walk, interface by interface.
* `unit_faithful`: the blocks have the accessors of the walk, and after a walk without problems
  every method that an interface requires.
-/

namespace TypedSettings

open Source

/-! ## Blocks -/

namespace Emit

variable {t : Target} {s : AccessorSpec} {m : GeneratedMethod}

theorem identifier_eq_ok {s name : String} (h : identifier s = .ok name) :
    name = s ∧ isIdentifier s = true := by
  unfold identifier at h
  split at h
  · next hs => exact ⟨(Except.ok.inj h).symm, hs⟩
  · cases h

/-- The method of a getter: its body is one read. -/
theorem getter_eq_ok (hrole : s.role = .getter) (h : accessor s t = .ok m) :
    isIdentifier s.method = true ∧ ∃ type read, typeTokens s.type = .ok type ∧
      readStmt s t type = .ok read ∧ m =
        { name := s.method
          signature := Token.code ["fn", s.method] ++ Token.arguments [Token.code ["&", "self"]]
            ++ Token.code ["->"] ++ type
          body := [read] } := by
  rw [accessor, hrole] at h
  obtain ⟨name, hname, h⟩ := bind_eq_ok.1 h
  obtain ⟨type, htype, h⟩ := bind_eq_ok.1 h
  obtain ⟨read, hread, h⟩ := bind_eq_ok.1 h
  obtain ⟨rfl, hident⟩ := identifier_eq_ok hname
  cases h
  exact ⟨hident, type, read, htype, hread, rfl⟩

/-- The method of a putter: its signature and its one write both have its parameter by its name,
and the write stands between opening an editor and publishing it. -/
theorem putter_eq_ok (hrole : s.role = .putter) (h : accessor s t = .ok m) :
    isIdentifier s.method = true ∧ isIdentifier (s.param.getD "value") = true ∧
      ∃ type write, typeTokens s.type = .ok type ∧
        writeStmt s t (s.param.getD "value") = .ok write ∧ m =
          { name := s.method
            signature := Token.code ["fn", s.method]
              ++ Token.arguments [Token.code ["&", "self"],
                Token.code [s.param.getD "value", ":"] ++ type]
              ++ (if s.isFluent then Token.code ["->", "&", "Self"] else [])
            body := [.openEditor, write, publish t] ++ (if s.isFluent then [.self] else []) } := by
  rw [accessor, hrole] at h
  obtain ⟨name, hname, h⟩ := bind_eq_ok.1 h
  obtain ⟨type, htype, h⟩ := bind_eq_ok.1 h
  obtain ⟨param, hparam, h⟩ := bind_eq_ok.1 h
  obtain ⟨write, hwrite, h⟩ := bind_eq_ok.1 h
  obtain ⟨rfl, hident⟩ := identifier_eq_ok hname
  obtain ⟨rfl, hvalue⟩ := identifier_eq_ok hparam
  cases h
  exact ⟨hident, hvalue, type, write, htype, hwrite, rfl⟩

/-- A generated method has the name of its accessor, and its signature starts with it. -/
theorem accessor_eq_ok (h : accessor s t = .ok m) :
    m.name = s.method ∧ Token.code ["fn", s.method] <+: m.signature := by
  cases hrole : s.role with
  | getter =>
    obtain ⟨-, type, read, -, -, rfl⟩ := getter_eq_ok hrole h
    rw [List.append_assoc, List.append_assoc]
    exact ⟨rfl, List.prefix_append _ _⟩
  | putter =>
    obtain ⟨-, -, type, write, -, -, rfl⟩ := putter_eq_ok hrole h
    rw [List.append_assoc]
    exact ⟨rfl, List.prefix_append _ _⟩

/-- A block has the path of its interface, and one method for each accessor, in order. -/
theorem impl_eq_ok {specs : List AccessorSpec} {interface : String} {b : TraitImpl}
    (h : impl t specs interface = .ok b) :
    b.interface = interface ∧ CodePath.read interface = .ok b.path ∧
      List.Forall₂ (fun s m => accessor s t = .ok m)
        (specs.filter fun s => s.interface == interface) b.methods := by
  obtain ⟨methods, hmethods, h⟩ := bind_eq_ok.1 h
  obtain ⟨path, hpath, h⟩ := bind_eq_ok.1 h
  cases h
  exact ⟨rfl, hpath, mapM_eq_ok_iff.1 hmethods⟩

/-- What the parts of a unit are made of. -/
structure Assembled (t : Target) (root : InterfaceDecl) (walk : Walk) (u : GeneratedUnit) :
    Prop where
  structName : u.structName = Naming.structName (QualifiedName.simple root.name)
  imports : List.Forall₂ (fun text p => CodePath.read text = .ok p)
    (unitImports t (root.store.getD {}) walk.outcome.specs) u.imports
  definition : u.definition
    = definition u.structName (QualifiedName.simple root.name) (root.store.getD {})
  actions : actions t walk.outcome.keys = .ok u.actions
  /-- a block for each name of the walk, in order -/
  impls : List.Forall₂ (fun n b => impl t walk.outcome.specs n = .ok b) walk.interfaces u.impls

theorem assembled {root : InterfaceDecl} {walk : Walk} {u : GeneratedUnit}
    (h : unit t root walk = .ok u) : Assembled t root walk u := by
  obtain ⟨structName, hname, h⟩ := bind_eq_ok.1 h
  obtain ⟨impls, himpls, h⟩ := bind_eq_ok.1 h
  obtain ⟨actions, hactions, h⟩ := bind_eq_ok.1 h
  obtain ⟨imports, himports, h⟩ := bind_eq_ok.1 h
  cases h
  exact ⟨(identifier_eq_ok hname).1, mapM_eq_ok_iff.1 himports, rfl, hactions,
    mapM_eq_ok_iff.1 himpls⟩

end Emit

/-! ## Accessors, interface by interface -/

namespace Walk

/-- The accessors among what became of an interface's methods. -/
theorem accepted_concerns {r : Reached} {methods : List MethodDecl}
    {results : List (Except Problem AccessorSpec)}
    (h : List.Forall₂ Concerns (methods.map fun m => (r, m)) results) :
    (∀ s ∈ accepted results, s.interface = r.name) ∧
      (refused results = [] →
        (accepted results).map AccessorSpec.method = methods.map MethodDecl.name) := by
  induction methods generalizing results with
  | nil =>
    cases h
    exact ⟨fun s hs => (List.not_mem_nil hs).elim, fun _ => rfl⟩
  | cons m methods ih =>
    rw [List.map_cons] at h
    cases h with
    | @cons _ result _ results hresult h =>
      obtain ⟨hname, hmethods⟩ := ih h
      cases result with
      | error p => exact ⟨hname, fun hnone => nomatch hnone⟩
      | ok s =>
        obtain ⟨hinterface, hmethod⟩ := hresult
        refine ⟨?_, fun hnone => ?_⟩
        · intro s' hs'
          rcases List.mem_cons.1 hs' with rfl | hs'
          · exact hinterface
          · exact hname s' hs'
        · show s.method :: (accepted results).map AccessorSpec.method = _
          rw [hmethods hnone, hmethod, List.map_cons]

/-- The accessors of a walk stand interface by interface, and after a walk without problems there
is one for each method. -/
theorem exists_accessors {w : World} {root : InterfaceDecl} {order : List Reached}
    {events : List Event} {results : List (Except Problem AccessorSpec)}
    (h : Account w root order events results) :
    ∃ groups, (ofRoot w root).outcome.specs = groups.flatten ∧
      List.Forall₂ (fun r g => ∀ s ∈ g, s.interface = r.name) order groups ∧
      ((ofRoot w root).outcome.problems = [] →
        List.Forall₂ (fun r g => r.issues = [] ∧
          g.map AccessorSpec.method = r.methods.map MethodDecl.name) order groups) := by
  obtain ⟨groups, hresults, hgroups⟩ := exists_groups _ h.concerns
  refine ⟨groups.map accepted, ?_, ?_, ?_⟩
  · rw [h.specs, hresults, accepted, List.filterMap_flatten]
    rfl
  · rw [List.forall₂_map_right_iff]
    exact hgroups.imp fun r g hg => (accepted_concerns hg).1
  · intro hproblems
    rw [List.forall₂_map_right_iff]
    have hrefused : ∀ g ∈ groups, refused g = [] := by
      have hnone := h.problems
      rw [hproblems, hresults, refused, List.filterMap_flatten] at hnone
      intro g hg
      exact List.flatten_eq_nil_iff.1 hnone.symm _ (List.mem_map_of_mem hg)
    have hissues : ∀ r ∈ order, r.issues = [] := by
      have hnone := h.issues
      rw [hproblems] at hnone
      intro r hr
      have := List.flatMap_eq_nil_iff.1 (List.map_eq_nil_iff.1 hnone.symm) r hr
      exact List.map_eq_nil_iff.1 this
    have hleft := (List.forall₂_and_left _ _).2 ⟨hissues, hgroups⟩
    have hboth := ((List.forall₂_and_left _ _).2 ⟨hrefused, hleft.flip⟩).flip
    refine hboth.imp fun r g hrg => ?_
    obtain ⟨hnone, hi, hg⟩ := hrg
    exact ⟨hi, (accepted_concerns hg).2 hnone⟩

end Walk

/-! ## Units -/

/-- The names of the methods that an interface requires: the functions without body of the item it
was read off, or the methods of its entry in a manifest. -/
def Reached.Requires (names : List String) : Reached → Prop
  | .declared d => d.methods.map MethodDecl.name = names ∧
      ∀ name file resolve item, d = InterfaceDecl.ofItem name file resolve item →
        bodilessNames item = names
  | .external e => e.methods.map MethodDecl.name = names ∧
      ∀ entry, Manifest.interface entry = .ok e →
        entry.methods.map Manifest.MethodEntry.name = names

theorem Reached.requires {r : Reached} (h : r.issues = []) :
    r.Requires (r.methods.map MethodDecl.name) := by
  cases r with
  | declared d =>
    refine ⟨rfl, ?_⟩
    rintro name file resolve item rfl
    exact (InterfaceDecl.ofItem_methods h).symm
  | external e => exact ⟨rfl, fun entry he => (Manifest.interface_methods he).2.symm⟩

namespace GeneratedUnit

/-- A method that an accessor became, under the accessor's name. -/
def Emitted (t : Target) (s : AccessorSpec) (m : GeneratedMethod) : Prop :=
  Emit.accessor s t = .ok m ∧ m.name = s.method ∧ Token.code ["fn", s.method] <+: m.signature

/-- What a unit has of the walk of its root, which visited the interfaces `order`. -/
structure Faithful (w : World) (t : Target) (root : InterfaceDecl) (order : List Reached)
    (u : GeneratedUnit) : Prop where
  /-- a block for every interface that the walk lists, in order -/
  interfaces : u.impls.map TraitImpl.interface = (Walk.ofRoot w root).interfaces
  /-- and for none two -/
  once : (u.impls.map TraitImpl.interface).Nodup
  traversed : (Walk.ofRoot w root).interfaces = order.map Reached.name
  /-- the methods of all blocks are the accessors of the walk, in order -/
  methods : List.Forall₂ (Emitted t) (Walk.ofRoot w root).outcome.specs
    (u.impls.flatMap TraitImpl.methods)
  /-- a block has the accessors that its interface declares -/
  blocks : List.Forall₂ (fun r b => b.interface = r.name ∧
    List.Forall₂ (Emitted t)
      ((Walk.ofRoot w root).outcome.specs.filter fun s => s.interface == r.name) b.methods)
    order u.impls
  /-- after a walk without problems it has the methods that its interface requires, in order -/
  complete : (Walk.ofRoot w root).outcome.problems = [] →
    List.Forall₂ (fun r b => r.Requires (b.methods.map GeneratedMethod.name)) order u.impls

theorem Emitted.map_name {t : Target} {specs : List AccessorSpec} {methods : List GeneratedMethod}
    (h : List.Forall₂ (Emitted t) specs methods) :
    methods.map GeneratedMethod.name = specs.map AccessorSpec.method :=
  (map_eq_map_of_forall₂ (h.imp fun _ _ hm => hm.2.1.symm)).symm

theorem Emitted.of_accessors {t : Target} {specs : List AccessorSpec}
    {methods : List GeneratedMethod}
    (h : List.Forall₂ (fun s m => Emit.accessor s t = .ok m) specs methods) :
    List.Forall₂ (Emitted t) specs methods :=
  h.imp fun _ _ hm => ⟨hm, Emit.accessor_eq_ok hm⟩

theorem faithful_of_account {w : World} {t : Target} {root : InterfaceDecl} {u : GeneratedUnit}
    {order : List Reached} {events : List Walk.Event} {results : List (Except Problem AccessorSpec)}
    (hpre : w.Preorder [] [.declared root] order)
    (haccount : Walk.Account w root order events results)
    (hu : Emit.unit t root (Walk.ofRoot w root) = .ok u) : Faithful w t root order u := by
  have hblocks := (Emit.assembled hu).impls
  rw [haccount.interfaces, List.forall₂_map_left_iff] at hblocks
  have hblocks := hblocks.imp fun _ _ => Emit.impl_eq_ok
  have hinterfaces : u.impls.map TraitImpl.interface = order.map Reached.name :=
    (map_eq_map_of_forall₂ (hblocks.imp fun _ _ hb => hb.1.symm)).symm
  obtain ⟨groups, hspecs, hkeys, hcomplete⟩ := Walk.exists_accessors haccount
  -- selecting by name gives the groups back
  have hselect := forall₂_filter_flatten ((List.forall₂_map_left_iff).2 hkeys) hpre.nodup
  rw [← hspecs, List.forall₂_map_left_iff] at hselect
  have hgroups : List.Forall₂ (fun g b => List.Forall₂ (Emitted t) g b.methods) groups u.impls :=
    forall₂_of_common hselect hblocks fun r g b hg hb => hg ▸ Emitted.of_accessors hb.2.2
  constructor
  case interfaces => rw [hinterfaces, haccount.interfaces]
  case once =>
    rw [hinterfaces]
    exact hpre.nodup
  case traversed => exact haccount.interfaces
  case methods =>
    rw [hspecs, List.flatMap_def]
    exact List.rel_flatten ((List.forall₂_map_right_iff).2 hgroups)
  case blocks => exact hblocks.imp fun _ _ hb => ⟨hb.1, Emitted.of_accessors hb.2.2⟩
  case complete =>
    intro hproblems
    refine forall₂_of_common (hcomplete hproblems).flip hgroups ?_
    rintro g r b ⟨hissues, hnames⟩ hg
    rw [Emitted.map_name hg, hnames]
    exact Reached.requires hissues

/-- The unit of a root is faithful to the root's walk, and a unit that is reported complete misses
no method. What a declaration requires stands in the sources, and what an external interface
requires stands in a manifest, unless it was known without one. -/
theorem unit_faithful (w : World) (t : Target) (root : InterfaceDecl) (u : GeneratedUnit)
    (hu : Emit.unit t root (Walk.ofRoot w root) = .ok u) :
    ∃ order,
      w.Preorder [] [.declared root] order ∧
      Faithful w t root order u ∧
      (∀ report, UnitReport.ofRoot w t root = .ok report → report.isComplete = true →
        List.Forall₂ (fun r b => r.Requires (b.methods.map GeneratedMethod.name)) order u.impls) ∧
      (∀ sources, Declarations.ofSources sources = .ok w.declarations →
        root ∈ w.declarations.interfaces →
        ∀ d, .declared d ∈ order → ∃ s ∈ sources, s.Declares d) ∧
      (∀ start texts, Registry.loadAll start texts = .ok w.registry →
        ∀ e, .external e ∈ order → e ∈ start.interfaces ∨
          ∃ path text, (path, some text) ∈ texts ∧ Manifest.Lists text e) := by
  obtain ⟨steps, ht, hplay⟩ := Walk.ofRoot_eq_play w root
  have hpre := Walk.preorder_of_trail ht
  have hfaithful := faithful_of_account hpre (Walk.account_of_trail hplay) hu
  have hfrom : ∀ r ∈ Walk.visited (.visit (.declared root) :: steps),
      r = .declared root ∨ w.Stands r := by
    intro r hr
    obtain ⟨s, hs, hreach⟩ := hpre.reached r hr
    rw [List.mem_singleton] at hs
    exact hs ▸ hreach.eq_or_stands
  refine ⟨_, hpre, hfaithful, ?_, ?_, ?_⟩
  · intro report hreport hcomplete
    exact hfaithful.complete (UnitReport.problems_eq_nil hreport hcomplete)
  · intro sources hsources hroot d hd
    apply Declarations.mem_ofSources hsources
    rcases hfrom _ hd with heq | hstands
    · injection heq with heq
      exact heq ▸ hroot
    · exact List.mem_of_find?_eq_some hstands
  · intro start texts hload e he
    apply Registry.mem_loadAll hload
    rcases hfrom _ he with heq | hstands
    · cases heq
    · exact List.mem_of_find?_eq_some hstands.2

/-! A root with a pair of methods, over an external interface with one. -/

def soundMethods : List MethodDecl :=
  [{ name := "volume", returns := .named "i32" },
   { name := "set_volume", params := [⟨"volume", .named "i32"⟩] }]

def playerRoot : InterfaceDecl :=
  { name := "crate::Player", store := some {}, methods := soundMethods
    ancestors := [.exact "vendor::Theme"] }

def themeInterface : ExternalInterface :=
  ⟨"vendor::Theme", [], [{ name := "is_dark", returns := .named "bool" }]⟩

def player : World := { declarations := ⟨[playerRoot]⟩, registry := ⟨[themeInterface]⟩ }

theorem ofRoot_player : Walk.ofRoot player playerRoot
    = (({} : Walk).visit player (.declared playerRoot)).visit player
      (.external themeInterface) :=
  Walk.ofRoot_leaf rfl (by decide +kernel) rfl rfl (by decide)

theorem unit_faithful_player : ∃ u,
    Emit.unit {} playerRoot (Walk.ofRoot player playerRoot) = .ok u ∧
    u.impls.map TraitImpl.interface = ["crate::Player", "vendor::Theme"] ∧
    (u.impls.flatMap TraitImpl.methods).map GeneratedMethod.name
      = ["volume", "set_volume", "is_dark"] := by
  have hok : (Emit.unit {} playerRoot (Walk.ofRoot player playerRoot)).isOk = true := by
    rw [ofRoot_player]
    decide +kernel
  obtain ⟨u, hu⟩ : ∃ u, Emit.unit {} playerRoot (Walk.ofRoot player playerRoot) = .ok u := by
    cases h : Emit.unit {} playerRoot (Walk.ofRoot player playerRoot) with
    | ok u => exact ⟨u, rfl⟩
    | error fault => rw [h] at hok; cases hok
  obtain ⟨order, -, hfaithful, -⟩ := unit_faithful player {} playerRoot u hu
  refine ⟨u, hu, ?_, ?_⟩
  · rw [hfaithful.interfaces, ofRoot_player]
    rfl
  · rw [Emitted.map_name hfaithful.methods, ofRoot_player]
    decide +kernel

end GeneratedUnit

end TypedSettings
