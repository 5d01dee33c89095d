import TypedSettings.Project
import TypedSettings.Proofs.Interface.Found
import TypedSettings.Proofs.Walk.Preorder

/-!
What the report on a root depends on: the root, what the unit is made for, and what the names stand
for that a reference of an interface in the root's hierarchy may mean. Two worlds that agree on
these names are walked alike, step by step, whatever else they have.

* `follow_congr`: the step invariant; the references left to follow are references of the hierarchy.
* `ofRoot_congr`: two walks of one root agree.
* `report_isolated`: so do the reports, and other declarations, the order of the sources and the
  other roots of a batch do not matter.
-/

namespace TypedSettings

namespace World

/-- Two worlds know a name as the same. -/
def AgreeOn (w w' : World) (name : String) : Prop :=
  w.declarations.get? name = w'.declarations.get? name ∧
    w.registry.get? name = w'.registry.get? name

/-- A reference of an interface in the hierarchy of a root. -/
def Consults (w : World) (root : InterfaceDecl) (a : AncestorRef) : Prop :=
  ∃ r, w.Reaches (.declared root) r ∧ a ∈ r.ancestors

variable {w w' : World} {root : InterfaceDecl} {a : AncestorRef}

theorem AgreeOn.knows {name : String} (h : w.AgreeOn w' name) : w.knows name = w'.knows name := by
  unfold World.knows Declarations.contains Registry.contains
  rw [h.1, h.2]

theorem contractAmong?_congr {names : List String} (h : ∀ c ∈ names, w.AgreeOn w' c) :
    w.contractAmong? names = w'.contractAmong? names := by
  induction names with
  | nil => rfl
  | cons name rest ih =>
    rw [contractAmong?, contractAmong?, (h name List.mem_cons_self).knows,
      ih fun c hc => h c (List.mem_cons_of_mem _ hc)]

theorem isContract_congr (h : ∀ c ∈ a.candidates, w.AgreeOn w' c) :
    w.isContract a = w'.isContract a := by
  rw [isContract, isContract, contractAmong?_congr h]

theorem resolve?_congr (h : ∀ c ∈ a.candidates, w.AgreeOn w' c) :
    w.resolve? a = w'.resolve? a := by
  rw [resolve?, resolve?, findSome?_congr fun c hc => (h c hc).1,
    findSome?_congr fun c hc => (h c hc).2]

/-- What a reference of the hierarchy leads to belongs to the hierarchy. -/
theorem Consults.below {r : Reached} (h : w.Consults root a) (hc : w.isContract a = false)
    (hr : w.resolve? a = some r) {b : AncestorRef} (hb : b ∈ r.ancestors) :
    w.Consults root b := by
  obtain ⟨q, hq, ha⟩ := h
  exact ⟨r, hq.tail ⟨a, ha, hc, hr⟩, hb⟩

end World

namespace Walk

variable {w w' : World} {root : InterfaceDecl}

section

variable {site : Attribution} {a : AncestorRef} {rest : List AncestorRef} {s : Walk}

theorem follow_contract (h : w.isContract a = true) :
    follow w site (a :: rest) s = follow w site rest s := by
  rw [follow, if_pos h]

theorem follow_unresolved (h : ¬w.isContract a = true) (hr : w.resolve? a = none) :
    follow w site (a :: rest) s
      = follow w site rest (s.fail (.unresolvableAncestor a.written site.interface site)) := by
  rw [follow, if_neg h]
  split
  · rfl
  · next r hr' => rw [hr] at hr'; cases hr'

theorem follow_resolved (h : ¬w.isContract a = true) {r : Reached} (hr : w.resolve? a = some r) :
    follow w site (a :: rest) s
      = if r.name ∈ s.interfaces then follow w site rest s
        else follow w site (r.ancestors ++ rest) (s.visit w r) := by
  rw [follow, if_neg h]
  split
  · next hr' => rw [hr] at hr'; cases hr'
  · next r' hr' =>
    rw [hr] at hr'
    cases hr'
    rw [dite_eq_ite]

end

/-- Two worlds that agree on the names of the hierarchy are walked alike. -/
theorem follow_congr (hserializer : w.serializer = w'.serializer)
    (hagree : ∀ a, w.Consults root a → ∀ c ∈ a.candidates, w.AgreeOn w' c) (site : Attribution)
    {todo : List AncestorRef} (htodo : ∀ a ∈ todo, w.Consults root a) (s : Walk) :
    follow w site todo s = follow w' site todo s := by
  fun_induction follow w site todo s with
  | case1 s => rw [follow]
  | case2 a rest s hc ih =>
    obtain ⟨hconsults, hrest⟩ := List.forall_mem_cons.1 htodo
    rw [ih hrest, follow_contract (World.isContract_congr (hagree a hconsults) ▸ hc)]
  | case3 a rest s hc hr ih =>
    obtain ⟨hconsults, hrest⟩ := List.forall_mem_cons.1 htodo
    rw [World.isContract_congr (hagree a hconsults)] at hc
    rw [World.resolve?_congr (hagree a hconsults)] at hr
    rw [ih hrest, follow_unresolved hc hr]
  | case4 a rest s hc r hr hs ih =>
    obtain ⟨hconsults, hrest⟩ := List.forall_mem_cons.1 htodo
    rw [World.isContract_congr (hagree a hconsults)] at hc
    rw [World.resolve?_congr (hagree a hconsults)] at hr
    rw [ih hrest, follow_resolved hc hr, if_pos hs]
  | case5 a rest s hc r hr hs ih =>
    obtain ⟨hconsults, hrest⟩ := List.forall_mem_cons.1 htodo
    -- what is visited is consulted too
    have hbelow : ∀ b ∈ r.ancestors ++ rest, w.Consults root b :=
      List.forall_mem_append.2
        ⟨fun b hb => hconsults.below (by simpa using hc) hr (by simpa using hb), hrest⟩
    have hvisit : s.visit w r = s.visit w' r := by rw [visit, visit, hserializer]
    rw [World.isContract_congr (hagree a hconsults)] at hc
    rw [World.resolve?_congr (hagree a hconsults)] at hr
    rw [ih hbelow, follow_resolved hc hr, if_neg hs, hvisit]

theorem ofRoot_congr (hserializer : w.serializer = w'.serializer)
    (hagree : ∀ a, w.Consults root a → ∀ c ∈ a.candidates, w.AgreeOn w' c) :
    ofRoot w root = ofRoot w' root := by
  have hvisit : ({} : Walk).visit w (.declared root) = ({} : Walk).visit w' (.declared root) := by
    rw [visit, visit, hserializer]
  have htodo : ∀ a ∈ root.ancestors, w.Consults root a :=
    fun a ha => ⟨.declared root, Relation.ReflTransGen.refl, ha⟩
  rw [ofRoot, ofRoot, ← hvisit]
  exact follow_congr hserializer hagree _ htodo _

end Walk

namespace Project

/-- Two projects agree on every name that a reference of a root's hierarchy may mean. -/
def AgreeFor (p p' : Project) (root : InterfaceDecl) : Prop :=
  ∀ r, p.world.Reaches (.declared root) r → ∀ a ∈ r.ancestors, ∀ c ∈ a.candidates,
    p.declarations.get? c = p'.declarations.get? c ∧ p.registry.get? c = p'.registry.get? c

theorem report_congr {p p' : Project} {root : InterfaceDecl}
    (htarget : p.config.target = p'.config.target) (hagree : p.AgreeFor p' root) :
    p.report root = p'.report root := by
  have hserializer : p.config.serializer = p'.config.serializer :=
    congrArg Target.serializer htarget
  have hwalk : Walk.ofRoot p.world root = Walk.ofRoot p'.world root :=
    Walk.ofRoot_congr hserializer fun a ⟨r, hr, ha⟩ => hagree r hr a ha
  unfold report UnitReport.ofRoot
  rw [hwalk, htarget]

/-- A generated batch has the report on each root, in the order of the roots. -/
theorem dryRun_eq_ok_iff (p : Project) (b : Batch) :
    p.dryRun = .ok b ↔
      List.Forall₂ (fun root u => p.report root = .ok u) p.declarations.roots b.units := by
  rw [← mapM_eq_ok_iff]
  show p.declarations.roots.mapM p.report >>= (fun units => pure ⟨units⟩) = .ok b ↔ _
  rw [bind_eq_ok]
  constructor
  · rintro ⟨units, hunits, h⟩
    cases h
    exact hunits
  · intro hunits
    exact ⟨b.units, hunits, rfl⟩

/-- The report on a root depends on nothing but the root, what units are made for, and what the
names stand for that a reference of the root's hierarchy may mean. So a declaration of another name
may be added, root or not; sources that declare no name in common may be read in any order; and a
batch has, for each root in order, the report that the root has alone. -/
theorem report_isolated :
    (∀ (p p' : Project) (root : InterfaceDecl), p.config.target = p'.config.target →
      p.AgreeFor p' root → p.report root = p'.report root) ∧
    (∀ (p : Project) (root other : InterfaceDecl),
      (∀ r, p.world.Reaches (.declared root) r → ∀ a ∈ r.ancestors, other.name ∉ a.candidates) →
      p.report root = { p with declarations := p.declarations.insert other }.report root) ∧
    (∀ (c : Config) (registry : Registry) (sources sources' : List SourceText) (ds : Declarations),
      sources.Perm sources' → Declarations.Apart sources →
      Declarations.ofSources sources = .ok ds →
      ∃ ds', Declarations.ofSources sources' = .ok ds' ∧
        (∀ root, root ∈ ds'.roots ↔ root ∈ ds.roots) ∧
        ∀ root, Project.report ⟨c, ds, registry⟩ root = Project.report ⟨c, ds', registry⟩ root) ∧
    (∀ (p : Project) (b : Batch), p.dryRun = .ok b ↔
      List.Forall₂ (fun root u => p.report root = .ok u) p.declarations.roots b.units) := by
  refine ⟨fun p p' root htarget hagree => report_congr htarget hagree, ?_, ?_, dryRun_eq_ok_iff⟩
  · intro p root other hother
    refine report_congr rfl fun r hr a ha c hc => ⟨?_, rfl⟩
    have hne : other.name ≠ c := fun heq => hother r hr a ha (heq ▸ hc)
    rw [Declarations.get?_insert, if_neg hne, Option.or_none]
  · intro c registry sources sources' ds hp hapart hds
    obtain ⟨ds', hds', hget, hroots⟩ := Declarations.ofSources_perm hp hapart hds
    refine ⟨ds', hds', hroots, fun root => ?_⟩
    exact report_congr rfl fun r _ a _ name _ => ⟨(hget name).symm, rfl⟩

/-! A root over a base, alone, and beside another root, after the base. -/

def lampBase : InterfaceDecl :=
  { name := "crate::Base", methods := [{ name := "is_on", returns := .named "bool" }] }

def lamp : InterfaceDecl :=
  { name := "crate::Lamp", store := some {}, ancestors := [.exact "crate::Base"] }

def radio : InterfaceDecl :=
  { name := "crate::Radio", store := some {}, ancestors := [.exact "crate::Lamp"] }

def lampAlone : Project := ⟨{}, ⟨[lamp, lampBase]⟩, {}⟩

def lampBeside : Project := ⟨{ output := ⟨"out"⟩ }, ⟨[radio, lampBase, lamp]⟩, .bundled⟩

theorem lampAlone_agreeFor : lampAlone.AgreeFor lampBeside lamp := by
  intro r hr a ha c hc
  have hstands := hr.stands (show lampAlone.world.Stands (.declared lamp) from rfl)
  obtain rfl : c = "crate::Base" := by
    cases r with
    | declared d =>
      have hd : d ∈ [lamp, lampBase] := List.mem_of_find?_eq_some hstands
      rcases List.mem_cons.1 hd with rfl | hd
      · obtain rfl := List.mem_singleton.1 ha
        exact List.mem_singleton.1 hc
      · obtain rfl := List.mem_singleton.1 hd
        cases ha
    | external e => cases hstands.2
  exact ⟨rfl, rfl⟩

def switchSource : SourceText := ⟨[], none, "trait Switch: Base {}"⟩

def baseSource : SourceText := ⟨[], none, "trait Base {}"⟩

theorem sources_evaluated :
    (Declarations.found switchSource).map InterfaceDecl.name = ["crate::Switch"] ∧
    (Declarations.found baseSource).map InterfaceDecl.name = ["crate::Base"] ∧
    (Declarations.ofSources [switchSource, baseSource]).isOk = true := by
  decide +kernel

theorem report_isolated_lamp :
    lampAlone.config.target = lampBeside.config.target ∧
    lampAlone.declarations.roots.length ≠ lampBeside.declarations.roots.length ∧
    lampAlone.report lamp = lampBeside.report lamp ∧
    ∃ ds ds', Declarations.ofSources [switchSource, baseSource] = .ok ds ∧
      Declarations.ofSources [baseSource, switchSource] = .ok ds' ∧
      ∀ root, Project.report ⟨{}, ds, {}⟩ root = Project.report ⟨{}, ds', {}⟩ root := by
  obtain ⟨hswitch, hbase, hok⟩ := sources_evaluated
  have hapart : Declarations.Apart [switchSource, baseSource] := by
    rw [Declarations.Apart, List.pairwise_pair, hswitch, hbase, List.singleton_disjoint]
    decide
  obtain ⟨ds, hds⟩ := exists_of_isOk hok
  obtain ⟨ds', hds', -, hreport⟩ :=
    report_isolated.2.2.1 {} {} _ _ ds (List.Perm.swap _ _ _) hapart hds
  refine ⟨rfl, by decide, report_isolated.1 _ _ _ rfl lampAlone_agreeFor, ds, ds', hds, hds', ?_⟩
  exact hreport

end Project

end TypedSettings
