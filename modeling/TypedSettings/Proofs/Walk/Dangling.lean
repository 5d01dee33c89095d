import TypedSettings.Proofs.Interface.Names
import TypedSettings.Proofs.Walk.Account

/-!
References that lead nowhere. Every such reference of every interface that a walk lists is charged
to the root once, unless it is taken for one to the actions. That is decided by its candidates if
they say anything, and otherwise by its last segment, whatever stands before it.

* `contractAmong?_eq_some_true_iff`: a reference without interface is to the actions where a
  candidate is a path of theirs.
* `Trail.danglings_perm`: a trail comes upon the references that lead nowhere, each once.
* `unresolvable_problems_foldl`: nothing else gives a problem of that kind.
* `ofRoot_danglings`: the references that a walk charges to its root.
-/

namespace TypedSettings

/-! ## References that are charged to the root -/

namespace World

/-- Whether a reference leads nowhere, and is not taken for one to the actions. -/
def dangles (w : World) (a : AncestorRef) : Bool := !w.isContract a && (w.resolve? a).isNone

variable {w : World} {a : AncestorRef}

theorem knows_eq_false_iff {name : String} :
    w.knows name = false ↔
      w.declarations.get? name = none ∧ w.registry.get? name = none := by
  simp [knows, Declarations.contains, Registry.contains]

theorem resolve?_eq_none_iff :
    w.resolve? a = none ↔ ∀ name ∈ a.candidates, w.knows name = false := by
  simp only [knows_eq_false_iff, resolve?]
  split
  · next d hd =>
    refine iff_of_false nofun fun h => ?_
    obtain ⟨name, hmem, hname⟩ := List.exists_of_findSome?_eq_some hd
    rw [(h name hmem).1] at hname
    cases hname
  · next hnone =>
    rw [Option.map_eq_none_iff, List.findSome?_eq_none_iff]
    rw [List.findSome?_eq_none_iff] at hnone
    exact forall₂_congr fun name hmem => (and_iff_right (hnone name hmem)).symm

theorem contractAmong?_eq_some_true_iff {names : List String}
    (h : ∀ name ∈ names, w.knows name = false) :
    w.contractAmong? names = some true ↔ ∃ name ∈ names, name ∈ contractPaths := by
  induction names with
  | nil => simp [contractAmong?]
  | cons name rest ih =>
    rw [List.forall_mem_cons] at h
    rw [contractAmong?, h.1, List.exists_mem_cons_iff, ← ih h.2]
    by_cases hpath : name ∈ contractPaths
    · simp [hpath]
    · simp [hpath]

theorem contractAmong?_ne_some_false {names : List String}
    (h : ∀ name ∈ names, w.knows name = false) : w.contractAmong? names ≠ some false := by
  induction names with
  | nil => nofun
  | cons name rest ih =>
    rw [List.forall_mem_cons] at h
    rw [contractAmong?, h.1]
    split
    · nofun
    · exact ih h.2

/-- A reference without interface is taken for one to the actions by a candidate or by its last
segment. -/
theorem isContract_iff (h : w.resolve? a = none) :
    w.isContract a = true ↔
      (∃ name ∈ a.candidates, name ∈ contractPaths) ∨ a.simpleName = contractName := by
  have hnames := resolve?_eq_none_iff.1 h
  rw [← contractAmong?_eq_some_true_iff hnames, isContract]
  cases hamong : w.contractAmong? a.candidates with
  | none => simp
  | some found =>
    cases found with
    | true => simp
    | false => exact absurd hamong (contractAmong?_ne_some_false hnames)

theorem dangles_iff :
    w.dangles a = true ↔
      w.resolve? a = none ∧ (∀ name ∈ a.candidates, name ∉ contractPaths) ∧
        a.written ≠ contractName ∧ ¬ ∃ path, a.written = path ++ "::" ++ contractName := by
  have hcolon : ':' ∉ contractName.toList := by decide
  have hsimple : a.simpleName = contractName ↔ _ := QualifiedName.simple_eq_iff hcolon
  rw [dangles, Bool.and_eq_true, Option.isNone_iff_eq_none, Bool.not_eq_true', and_comm]
  refine and_congr_right fun h => ?_
  rw [← Bool.not_eq_true, isContract_iff h, hsimple]
  simp only [not_or, not_exists, not_and]

end World

/-- The problem of a reference that leads nowhere. -/
def Problem.isUnresolvable : Problem → Bool
  | unresolvableAncestor .. => true
  | _ => false

namespace Walk

/-! ## What a trail comes upon -/

namespace Step

def dangling? : Step → Option AncestorRef
  | visit _ => none
  | dangling a => some a

end Step

/-- The references that lead nowhere among steps. -/
def danglings (steps : List Step) : List AncestorRef := steps.filterMap Step.dangling?

/-- The references of an interface that lead nowhere. -/
def danglingsOf (w : World) (r : Reached) : List AncestorRef := r.ancestors.filter w.dangles

@[simp] theorem danglings_visit (r : Reached) (steps : List Step) :
    danglings (.visit r :: steps) = danglings steps := rfl

@[simp] theorem danglings_dangling (a : AncestorRef) (steps : List Step) :
    danglings (.dangling a :: steps) = a :: danglings steps := rfl

@[simp] theorem danglings_append (steps steps' : List Step) :
    danglings (steps ++ steps') = danglings steps ++ danglings steps' := List.filterMap_append

variable {w : World}

/-- A trail comes upon the references that lead nowhere, of what it starts with and of what it
visits. They stand in another order: those of a visited interface come before the ones beside it. -/
theorem Trail.danglings_perm {seen : List String} {todo : List AncestorRef} {steps : List Step}
    (h : Trail w seen todo steps) :
    (danglings steps).Perm
      (todo.filter w.dangles ++ (visited steps).flatMap (danglingsOf w)) := by
  induction h with
  | done => exact .nil
  | @contract seen a rest steps hc _ ih =>
    have ha : ¬ w.dangles a = true := by simp [World.dangles, hc]
    rwa [List.filter_cons_of_neg ha]
  | @dangling seen a rest steps hc hnone _ ih =>
    have ha : w.dangles a = true := by simp [World.dangles, hc, hnone]
    rw [List.filter_cons_of_pos ha, danglings_dangling, visited_dangling, List.cons_append]
    exact ih.cons a
  | @again seen a r rest steps hc hr _ _ ih =>
    have ha : ¬ w.dangles a = true := by simp [World.dangles, hr]
    rwa [List.filter_cons_of_neg ha]
  | @visit seen a r rest below after hc hr _ _ _ ihbelow ihafter =>
    have ha : ¬ w.dangles a = true := by simp [World.dangles, hr]
    rw [List.filter_cons_of_neg ha, danglings_visit, danglings_append, visited_visit,
      visited_append, List.flatMap_cons, List.flatMap_append]
    refine (ihbelow.append ihafter).trans ?_
    rw [← List.append_assoc, ← List.append_assoc (danglingsOf w r), ← List.append_assoc]
    exact List.perm_append_comm.append_right _

/-! ## What is charged to the root -/

/-- The problem that a reference becomes that leads nowhere. -/
def danglingProblem (site : Attribution) (a : AncestorRef) : Problem :=
  .unresolvableAncestor a.written site.interface site

def Event.dangling? : Event → Option AncestorRef
  | .dangling a => some a
  | _ => none

theorem dangling?_events (steps : List Step) :
    (steps.flatMap Step.events).filterMap Event.dangling? = danglings steps := by
  induction steps with
  | nil => rfl
  | cons step steps ih =>
    rw [List.flatMap_cons, List.filterMap_append, ih]
    cases step with
    | visit r =>
      simp [Step.events, List.filterMap_cons, Event.dangling?, List.filterMap_map,
        Function.comp_def]
    | dangling a => simp [Step.events, Event.dangling?]

theorem unresolvable_problems_record (w : World) (site : Attribution) {s : Walk} (h : s.KeysHold)
    (e : Event) :
    (record w site s e).outcome.problems.filter Problem.isUnresolvable
      = s.outcome.problems.filter Problem.isUnresolvable
        ++ e.dangling?.toList.map (danglingProblem site) := by
  cases e with
  | enter r => exact (List.append_nil _).symm
  | issue r i =>
    simp [record, Outcome.addIssue, Outcome.fail, Problem.isUnresolvable, Event.dangling?]
  | dangling a =>
    simp [record, Walk.fail, Outcome.fail, Problem.isUnresolvable, Event.dangling?, danglingProblem]
  | method r m =>
    rcases record_method w site h r m with ⟨p, -, hs, hj⟩ | ⟨spec, -, hs, -⟩
    · have hp : p.isUnresolvable = false := by
        have hm := hj.of_error.1
        cases p <;> first | rfl | cases hm
      rw [hs]
      simp [Walk.fail, Outcome.fail, Event.dangling?, hp]
    · rw [hs]
      exact (List.append_nil _).symm

/-- References that lead nowhere give their problems, and nothing else gives one of that kind. -/
theorem unresolvable_problems_foldl (w : World) (site : Attribution) {s : Walk} (h : s.KeysHold)
    (events : List Event) :
    (events.foldl (record w site) s).outcome.problems.filter Problem.isUnresolvable
      = s.outcome.problems.filter Problem.isUnresolvable
        ++ (events.filterMap Event.dangling?).map (danglingProblem site) := by
  induction events generalizing s with
  | nil => exact (List.append_nil _).symm
  | cons e events ih =>
    rw [List.foldl_cons, ih (h.record w site e), unresolvable_problems_record w site h,
      List.append_assoc, ← List.map_append]
    cases he : e.dangling? with
    | none => rw [List.filterMap_cons_none he]; rfl
    | some a => rw [List.filterMap_cons_some he]; rfl

/-- A walk charges to its root every reference that leads nowhere, of the root and of all it
reaches, each once; but a reference that ends in the name of the actions is never charged, whatever
path it is written with. -/
theorem ofRoot_danglings (w : World) (root : InterfaceDecl)
    (hroot : w.declarations.get? root.name = some root) :
    ∃ order, w.Preorder [] [.declared root] order ∧
      (∀ r, r ∈ order ↔ w.Reaches (.declared root) r) ∧
      ((ofRoot w root).outcome.problems.filter Problem.isUnresolvable).Perm
        ((order.flatMap (danglingsOf w)).map
          (danglingProblem (.ofInterface root.name root.location))) ∧
      ∀ a, w.dangles a = true ↔
        w.resolve? a = none ∧ (∀ name ∈ a.candidates, name ∉ World.contractPaths) ∧
          a.written ≠ World.contractName ∧
          ¬ ∃ path, a.written = path ++ "::" ++ World.contractName := by
  obtain ⟨steps, htrail, hplay⟩ := ofRoot_eq_play w root
  have horder := preorder_of_trail htrail
  refine ⟨_, horder, horder.mem_iff (show w.Stands (.declared root) from hroot), ?_,
    fun _ => World.dangles_iff⟩
  rw [hplay, foldl_take_eq_record,
    unresolvable_problems_foldl w _ (s := {}) KeySpace.holds_empty, dangling?_events]
  exact htrail.danglings_perm.map _

/-! A root that inherits from two interfaces of other crates, which are not known. One of them is
called like the actions. -/

def guestRoot : InterfaceDecl :=
  { name := "crate::Settings"
    ancestors := [.exact "vendor::Tuner", .exact "other_crate::PreferenceActions"] }

def guest : World := { declarations := ⟨[guestRoot]⟩ }

theorem ofRoot_danglings_guest :
    guest.declarations.get? guestRoot.name = some guestRoot ∧
      guest.resolve? (.exact "other_crate::PreferenceActions") = none ∧
      (ofRoot guest guestRoot).outcome.problems.filter Problem.isUnresolvable
        = [.unresolvableAncestor "vendor::Tuner" "crate::Settings"
            (.ofInterface "crate::Settings" none)] := by
  have hroot : guest.declarations.get? guestRoot.name = some guestRoot := rfl
  obtain ⟨order, hpre, -, hproblems, hdangles⟩ := ofRoot_danglings guest guestRoot hroot
  have hlist : guest.Preorder [] [.declared guestRoot] (.declared guestRoot :: ([] ++ [])) :=
    .enter List.not_mem_nil .done .done
  obtain rfl : order = [.declared guestRoot] := hpre.unique hlist
  have htuner : guest.dangles (.exact "vendor::Tuner") = true := by decide +kernel
  have hactions : ¬ guest.dangles (.exact "other_crate::PreferenceActions") = true :=
    fun h => ((hdangles _).1 h).2.2.2 ⟨"other_crate", rfl⟩
  have hone : danglingsOf guest (.declared guestRoot) = [.exact "vendor::Tuner"] := by
    show [_, _].filter _ = _
    rw [List.filter_cons_of_pos htuner, List.filter_cons_of_neg hactions, List.filter_nil]
  refine ⟨hroot, rfl, ?_⟩
  rw [List.flatMap_singleton, hone] at hproblems
  exact List.perm_singleton.1 hproblems

end Walk

end TypedSettings
