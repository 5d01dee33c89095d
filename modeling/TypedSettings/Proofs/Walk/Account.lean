import Mathlib.Data.List.Forall2
import TypedSettings.Proofs.Accessor.Registration
import TypedSettings.Proofs.Report
import TypedSettings.Proofs.Walk.Trail

/-!
The account of a walk: what it came upon, and what became of each thing. A walk is a list of events,
recorded one after the other; every state in between is the record of a first part of the list.
Every issue and every method of an interface that is entered is one event, and a method is judged by
the accessors before it.

* `keys_hold`: in every state the key space has exactly the accessors, role by role.
* `record_method`: a method adds one accessor, or one problem and nothing else.
* `judged_results`: what methods become, each after the accessors before it.
* `ofRoot_account`: the account of the walk of a root.
-/

namespace TypedSettings

namespace Walk

/-! ## Events -/

/-- One thing that a walk records. -/
inductive Event where
  | enter (r : Reached)
  | issue (r : Reached) (i : AttributeIssue)
  | method (r : Reached) (m : MethodDecl)
  | dangling (a : AncestorRef)

namespace Event

def issue? : Event → Option (Reached × AttributeIssue)
  | issue r i => some (r, i)
  | _ => none

def method? : Event → Option (Reached × MethodDecl)
  | method r m => some (r, m)
  | _ => none

end Event

/-- Entering an interface comes before its issues, and they come before its methods. -/
def Step.events : Step → List Event
  | .visit r => .enter r :: (r.issues.map (.issue r) ++ r.methods.map (.method r))
  | .dangling a => [.dangling a]

/-- Records an event. -/
def record (w : World) (site : Attribution) (s : Walk) : Event → Walk
  | .enter r => { s with interfaces := s.interfaces ++ [r.name] }
  | .issue r i => { s with outcome := s.outcome.addIssue r.name i }
  | .method r m => { s with outcome := s.outcome.addMethod w.serializer r.name m }
  | .dangling a => s.fail (.unresolvableAncestor a.written site.interface site)

/-- Records events from the start of a root's walk. -/
def play (w : World) (root : InterfaceDecl) (events : List Event) : Walk :=
  events.foldl (record w (.ofInterface root.name root.location)) {}

theorem foldl_record_issues (w : World) (site : Attribution) (r : Reached)
    (issues : List AttributeIssue) (s : Walk) :
    (issues.map (Event.issue r)).foldl (record w site) s
      = { s with outcome := issues.foldl (Outcome.addIssue r.name) s.outcome } := by
  induction issues generalizing s with
  | nil => rfl
  | cons i issues ih =>
    rw [List.map_cons, List.foldl_cons, ih]
    rfl

theorem foldl_record_methods (w : World) (site : Attribution) (r : Reached)
    (methods : List MethodDecl) (s : Walk) :
    (methods.map (Event.method r)).foldl (record w site) s
      = { s with
          outcome := methods.foldl (Outcome.addMethod w.serializer r.name) s.outcome } := by
  induction methods generalizing s with
  | nil => rfl
  | cons m methods ih =>
    rw [List.map_cons, List.foldl_cons, ih]
    rfl

theorem take_eq_record (w : World) (site : Attribution) (s : Walk) (step : Step) :
    take w site s step = step.events.foldl (record w site) s := by
  cases step with
  | visit r =>
    rw [Step.events, List.foldl_cons, List.foldl_append, foldl_record_issues,
      foldl_record_methods]
    rfl
  | dangling a => rfl

theorem foldl_take_eq_record (w : World) (site : Attribution) (steps : List Step) (s : Walk) :
    steps.foldl (take w site) s = (steps.flatMap Step.events).foldl (record w site) s := by
  induction steps generalizing s with
  | nil => rfl
  | cons step steps ih =>
    rw [List.foldl_cons, ih, take_eq_record, List.flatMap_cons, List.foldl_append]

/-! ## What is met -/

/-- The issues of interfaces, in order. -/
def issuesOf (order : List Reached) : List (Reached × AttributeIssue) :=
  order.flatMap fun r => r.issues.map fun i => (r, i)

/-- The methods of interfaces, in order. -/
def methodsOf (order : List Reached) : List (Reached × MethodDecl) :=
  order.flatMap fun r => r.methods.map fun m => (r, m)

theorem issue?_events (steps : List Step) :
    (steps.flatMap Step.events).filterMap Event.issue? = issuesOf (visited steps) := by
  induction steps with
  | nil => rfl
  | cons step steps ih =>
    rw [List.flatMap_cons, List.filterMap_append, ih]
    cases step with
    | visit r =>
      simp [Step.events, issuesOf, List.filterMap_cons, Event.issue?, List.filterMap_map,
        Function.comp_def]
    | dangling a => simp [Step.events, Event.issue?]

theorem method?_events (steps : List Step) :
    (steps.flatMap Step.events).filterMap Event.method? = methodsOf (visited steps) := by
  induction steps with
  | nil => rfl
  | cons step steps ih =>
    rw [List.flatMap_cons, List.filterMap_append, ih]
    cases step with
    | visit r =>
      simp [Step.events, methodsOf, List.filterMap_cons, Event.method?, List.filterMap_map,
        Function.comp_def]
    | dangling a => simp [Step.events, Event.method?]

/-! ## One event -/

/-- The problem that an issue becomes. -/
def issueProblem (r : Reached) (i : AttributeIssue) : Problem :=
  .invalidAttribute r.name i.fault ⟨r.name, i.method, i.location⟩

/-- The key space has exactly the accessors. -/
def KeysHold (s : Walk) : Prop := s.outcome.keys.Holds s.outcome.specs

/-- What becomes of a method. -/
def result (w : World) (s : Walk) (r : Reached) (m : MethodDecl) : Except Problem AccessorSpec :=
  (s.outcome.keys.classify w.serializer r.name m).map Prod.fst

/-- Adds an accessor, and its key. -/
def accept (s : Walk) (spec : AccessorSpec) : Walk :=
  { s with outcome := { s.outcome with
      keys := s.outcome.keys.push spec
      specs := s.outcome.specs ++ [spec] } }

/-- A method adds one accessor, or one problem and nothing else, as it is judged by the accessors
so far. -/
theorem record_method (w : World) (site : Attribution) {s : Walk} (h : s.KeysHold) (r : Reached)
    (m : MethodDecl) :
    (∃ p, result w s r m = .error p ∧ record w site s (.method r m) = s.fail p ∧
      Judged w.serializer s.outcome.specs r.name m (.error p)) ∨
    (∃ spec, result w s r m = .ok spec ∧ record w site s (.method r m) = s.accept spec ∧
      Judged w.serializer s.outcome.specs r.name m (.ok spec)) := by
  rcases h.classify w.serializer r.name m with ⟨p, hc, hj⟩ | ⟨spec, hc, hj⟩
  · refine Or.inl ⟨p, ?_, ?_, hj⟩
    · rw [result, hc]
      rfl
    · simp only [record, Outcome.addMethod, hc]
      rfl
  · refine Or.inr ⟨spec, ?_, ?_, hj⟩
    · rw [result, hc]
      rfl
    · simp only [record, Outcome.addMethod, hc]
      rfl

def accepted? : Except Problem AccessorSpec → Option AccessorSpec
  | .ok s => some s
  | .error _ => none

def refused? : Except Problem AccessorSpec → Option Problem
  | .ok _ => none
  | .error p => some p

/-- The accessors among results. -/
def accepted (results : List (Except Problem AccessorSpec)) : List AccessorSpec :=
  results.filterMap accepted?

/-- The problems among results. -/
def refused (results : List (Except Problem AccessorSpec)) : List Problem :=
  results.filterMap refused?

/-- What becomes of the method of an event, if it is one of a method. -/
def resultAt (w : World) (s : Walk) : Event → List (Except Problem AccessorSpec)
  | .method r m => [result w s r m]
  | _ => []

theorem specs_record (w : World) (site : Attribution) {s : Walk} (h : s.KeysHold) (e : Event) :
    (record w site s e).outcome.specs = s.outcome.specs ++ accepted (resultAt w s e) := by
  cases e with
  | enter r => exact (List.append_nil _).symm
  | issue r i => exact (List.append_nil _).symm
  | dangling a => exact (List.append_nil _).symm
  | method r m =>
    rcases record_method w site h r m with ⟨p, hp, hs, -⟩ | ⟨spec, hp, hs, -⟩
    · rw [resultAt, hp, hs]
      exact (List.append_nil _).symm
    · rw [resultAt, hp, hs]
      rfl

/-- The problems of methods are the refused results; nothing else gives one. -/
theorem method_problems_record (w : World) (site : Attribution) {s : Walk} (h : s.KeysHold)
    (e : Event) :
    (record w site s e).outcome.problems.filter Problem.isOfMethod
      = s.outcome.problems.filter Problem.isOfMethod ++ refused (resultAt w s e) := by
  cases e with
  | enter r => exact (List.append_nil _).symm
  | issue r i =>
    simp [record, resultAt, Outcome.addIssue, Outcome.fail, Problem.isOfMethod, refused]
  | dangling a => simp [record, resultAt, Walk.fail, Outcome.fail, Problem.isOfMethod, refused]
  | method r m =>
    rcases record_method w site h r m with ⟨p, hp, hs, hj⟩ | ⟨spec, hp, hs, -⟩
    · rw [resultAt, hp, hs]
      simp [Walk.fail, Outcome.fail, refused, refused?, hj.of_error.1]
    · rw [resultAt, hp, hs]
      exact (List.append_nil _).symm

/-- The problems of annotations are the issues that are met; nothing else gives one. -/
theorem issue_problems_record (w : World) (site : Attribution) {s : Walk} (h : s.KeysHold)
    (e : Event) :
    (record w site s e).outcome.problems.filter Problem.isOfAttribute
      = s.outcome.problems.filter Problem.isOfAttribute
        ++ e.issue?.toList.map fun i => issueProblem i.1 i.2 := by
  cases e with
  | enter r => exact (List.append_nil _).symm
  | issue r i =>
    simp [record, Outcome.addIssue, Outcome.fail, Problem.isOfAttribute, Event.issue?, issueProblem]
  | dangling a => simp [record, Walk.fail, Outcome.fail, Problem.isOfAttribute, Event.issue?]
  | method r m =>
    rcases record_method w site h r m with ⟨p, -, hs, hj⟩ | ⟨spec, -, hs, -⟩
    · have hp : p.isOfAttribute = false := by
        have hm := hj.of_error.1
        cases p <;> first | rfl | cases hm
      rw [hs]
      simp [Walk.fail, Outcome.fail, Event.issue?, hp]
    · rw [hs]
      exact (List.append_nil _).symm

theorem KeysHold.record (w : World) (site : Attribution) {s : Walk} (h : s.KeysHold) (e : Event) :
    (record w site s e).KeysHold := by
  cases e with
  | enter r => exact h
  | issue r i => exact h
  | dangling a => exact h
  | method r m =>
    rcases record_method w site h r m with ⟨p, -, hs, -⟩ | ⟨spec, -, hs, -⟩
    · rw [hs]
      exact h
    · rw [hs]
      exact h.push spec

/-! ## Runs of events -/

theorem KeysHold.foldl (w : World) (site : Attribution) {s : Walk} (h : s.KeysHold)
    (events : List Event) : (events.foldl (Walk.record w site) s).KeysHold := by
  induction events generalizing s with
  | nil => exact h
  | cons e events ih => exact ih (h.record w site e)

theorem keys_hold (w : World) (root : InterfaceDecl) (events : List Event) :
    (play w root events).KeysHold :=
  KeysHold.foldl w _ (s := {}) KeySpace.holds_empty events

/-- What becomes of the methods among events. -/
def results (w : World) (site : Attribution) :
    Walk → List Event → List (Except Problem AccessorSpec)
  | _, [] => []
  | s, e :: rest => resultAt w s e ++ results w site (record w site s e) rest

theorem specs_foldl (w : World) (site : Attribution) {s : Walk} (h : s.KeysHold)
    (events : List Event) :
    (events.foldl (record w site) s).outcome.specs
      = s.outcome.specs ++ accepted (results w site s events) := by
  induction events generalizing s with
  | nil => exact (List.append_nil _).symm
  | cons e events ih =>
    rw [List.foldl_cons, ih (h.record w site e), specs_record w site h, results, accepted, accepted,
      accepted, List.filterMap_append, List.append_assoc]

theorem method_problems_foldl (w : World) (site : Attribution) {s : Walk} (h : s.KeysHold)
    (events : List Event) :
    (events.foldl (record w site) s).outcome.problems.filter Problem.isOfMethod
      = s.outcome.problems.filter Problem.isOfMethod ++ refused (results w site s events) := by
  induction events generalizing s with
  | nil => exact (List.append_nil _).symm
  | cons e events ih =>
    rw [List.foldl_cons, ih (h.record w site e), method_problems_record w site h, results, refused,
      refused, refused, List.filterMap_append, List.append_assoc]

theorem issue_problems_foldl (w : World) (site : Attribution) {s : Walk} (h : s.KeysHold)
    (events : List Event) :
    (events.foldl (record w site) s).outcome.problems.filter Problem.isOfAttribute
      = s.outcome.problems.filter Problem.isOfAttribute
        ++ (events.filterMap Event.issue?).map fun e => issueProblem e.1 e.2 := by
  induction events generalizing s with
  | nil => exact (List.append_nil _).symm
  | cons e events ih =>
    rw [List.foldl_cons, ih (h.record w site e), issue_problems_record w site h, List.append_assoc,
      ← List.map_append]
    cases he : e.issue? with
    | none => rw [List.filterMap_cons_none he]; rfl
    | some i => rw [List.filterMap_cons_some he]; rfl

/-- What methods become, each judged by the accessors before it. -/
inductive JudgedAll (serializer : Option String) :
    List AccessorSpec → List (Reached × MethodDecl) → List (Except Problem AccessorSpec) → Prop
  | nil {earlier : List AccessorSpec} : JudgedAll serializer earlier [] []
  | cons {earlier : List AccessorSpec} {r : Reached} {m : MethodDecl}
      {methods : List (Reached × MethodDecl)} {result : Except Problem AccessorSpec}
      {results : List (Except Problem AccessorSpec)} :
      Judged serializer earlier r.name m result →
      JudgedAll serializer (earlier ++ accepted [result]) methods results →
      JudgedAll serializer earlier ((r, m) :: methods) (result :: results)

theorem judged_results (w : World) (site : Attribution) {s : Walk} (h : s.KeysHold)
    (events : List Event) :
    JudgedAll w.serializer s.outcome.specs (events.filterMap Event.method?)
      (results w site s events) := by
  induction events generalizing s with
  | nil => exact .nil
  | cons e events ih =>
    have ih := ih (h.record w site e)
    rw [results]
    cases e with
    | enter r => exact ih
    | issue r i => exact ih
    | dangling a => exact ih
    | method r m =>
      rcases record_method w site h r m with ⟨p, hp, hs, hj⟩ | ⟨spec, hp, hs, hj⟩
      · rw [resultAt, hp]
        rw [hs] at ih ⊢
        refine .cons hj ?_
        show JudgedAll _ (s.outcome.specs ++ []) _ _
        rw [List.append_nil]
        exact ih
      · rw [resultAt, hp]
        rw [hs] at ih ⊢
        exact .cons hj ih

/-- One outcome of a method: an accessor of the method, or a problem that is attributed to it. -/
def Concerns (method : Reached × MethodDecl) : Except Problem AccessorSpec → Prop
  | .ok s => s.interface = method.1.name ∧ s.method = method.2.name
  | .error p => p.attribution? = some (.ofMethod method.1.name method.2.name method.2.location)

namespace JudgedAll

variable {serializer : Option String} {earlier : List AccessorSpec}
  {methods : List (Reached × MethodDecl)} {results : List (Except Problem AccessorSpec)}

/-- There is one result for each method, and it concerns the method. -/
theorem concerns (h : JudgedAll serializer earlier methods results) :
    List.Forall₂ Concerns methods results := by
  induction h with
  | nil => exact .nil
  | @cons earlier r m methods result results hj _ ih =>
    refine .cons ?_ ih
    cases result with
    | ok s => exact hj.of_ok
    | error p => exact hj.of_error.2

/-- A result is judged by the accessors among the results before it. -/
theorem judged (h : JudgedAll serializer earlier methods results) {i : Nat} {r : Reached}
    {m : MethodDecl} {result : Except Problem AccessorSpec} (hm : methods[i]? = some (r, m))
    (hr : results[i]? = some result) :
    Judged serializer (earlier ++ accepted (results.take i)) r.name m result := by
  induction h generalizing i with
  | nil => cases hm
  | @cons earlier r' m' methods result' results hj _ ih =>
    cases i with
    | zero =>
      cases hm
      cases hr
      simpa [accepted] using hj
    | succ i =>
      have := ih (i := i) (by simpa using hm) (by simpa using hr)
      rw [List.append_assoc, accepted, accepted, ← List.filterMap_append] at this
      exact this

end JudgedAll

/-! ## The account of a root -/

/-- What a walk from `root` came upon and what became of it: `order` are the interfaces, `events`
the walk event by event, and `results` what became of the methods. -/
structure Account (w : World) (root : InterfaceDecl) (order : List Reached) (events : List Event)
    (results : List (Except Problem AccessorSpec)) : Prop where
  /-- the walk is its events, recorded from the start -/
  played : ofRoot w root = play w root events
  interfaces : (ofRoot w root).interfaces = order.map Reached.name
  /-- every issue of every interface gives one problem, attributed to its interface or method -/
  issues : (ofRoot w root).outcome.problems.filter Problem.isOfAttribute
    = (issuesOf order).map fun e => issueProblem e.1 e.2
  /-- every method of every interface is one event, in order -/
  methods : events.filterMap Event.method? = methodsOf order
  /-- and has one result that concerns it -/
  concerns : List.Forall₂ Concerns (methodsOf order) results
  /-- a result is an accessor, or a problem, and there are no others -/
  specs : (ofRoot w root).outcome.specs = accepted results
  problems : (ofRoot w root).outcome.problems.filter Problem.isOfMethod = refused results
  /-- a result is what the method becomes after the accessors before it -/
  judged : ∀ i r m result, (methodsOf order)[i]? = some (r, m) → results[i]? = some result →
    Judged w.serializer (accepted (results.take i)) r.name m result
  /-- a method is a duplicate exactly when it would be an accessor and has the role and key of an
  earlier one -/
  duplicate_iff : ∀ i r m result, (methodsOf order)[i]? = some (r, m) → results[i]? = some result →
    ((∃ p, result = .error p ∧ p.isDuplicate = true) ↔
      ∃ s, AccessorSpec.ofMethod w.serializer r.name m = .ok s ∧
        ∃ e ∈ accepted (results.take i), e.role = s.role ∧ e.key = s.key)
  /-- it then names the method of the earlier one -/
  duplicate_names : ∀ i r m key role first method site, (methodsOf order)[i]? = some (r, m) →
    results[i]? = some (.error (.duplicateKey key role first method site)) →
    method = m.name ∧
      ∃ e ∈ accepted (results.take i), e.role = role ∧ e.key = key ∧ e.method = first
  /-- in every state the key space has exactly the accessors, role by role, in order -/
  keys : ∀ before after, events = before ++ after →
    (play w root before).outcome.keys.Holds (play w root before).outcome.specs
  /-- a method that fails adds its problem and leaves accessors and keys alone -/
  failing : ∀ before r m after, events = before ++ .method r m :: after →
    (∃ spec, (play w root (before ++ [.method r m])).outcome.specs
        = (play w root before).outcome.specs ++ [spec] ∧
      (play w root (before ++ [.method r m])).outcome.problems
        = (play w root before).outcome.problems) ∨
    (∃ p, (play w root (before ++ [.method r m])).outcome.problems
        = (play w root before).outcome.problems ++ [p] ∧
      (play w root (before ++ [.method r m])).outcome.keys = (play w root before).outcome.keys ∧
      (play w root (before ++ [.method r m])).outcome.specs = (play w root before).outcome.specs)

theorem account_of_trail {w : World} {root : InterfaceDecl} {steps : List Step}
    (hplay : ofRoot w root = (Step.visit (.declared root) :: steps).foldl
      (take w (.ofInterface root.name root.location)) {}) :
    Account w root (visited (.visit (.declared root) :: steps))
      ((Step.visit (.declared root) :: steps).flatMap Step.events)
      (results w (.ofInterface root.name root.location) {}
        ((Step.visit (.declared root) :: steps).flatMap Step.events)) := by
  have hempty : ({} : Walk).KeysHold := KeySpace.holds_empty
  have hrec := hplay
  rw [foldl_take_eq_record] at hrec
  generalize hsteps : Step.visit (.declared root) :: steps = all at *
  have hjudged := judged_results w (.ofInterface root.name root.location) hempty
    (all.flatMap Step.events)
  rw [method?_events] at hjudged
  constructor
  case played => exact hrec
  case interfaces =>
    rw [hplay, interfaces_play]
    rfl
  case issues =>
    rw [hrec, issue_problems_foldl w _ hempty, issue?_events]
    rfl
  case methods => exact method?_events all
  case concerns => exact hjudged.concerns
  case specs =>
    rw [hrec, specs_foldl w _ hempty]
    rfl
  case problems =>
    rw [hrec, method_problems_foldl w _ hempty]
    rfl
  case judged =>
    intro i r m result hm hr
    exact hjudged.judged hm hr
  case duplicate_iff =>
    intro i r m result hm hr
    exact (hjudged.judged hm hr).isDuplicate_iff
  case duplicate_names =>
    intro i r m key role first method site hm hr
    exact (hjudged.judged hm hr).duplicate_names
  case keys =>
    intro before after _
    exact keys_hold w root before
  case failing =>
    intro before r m after _
    have hstep : play w root (before ++ [.method r m])
        = record w (.ofInterface root.name root.location) (play w root before) (.method r m) := by
      rw [play, List.foldl_append]
      rfl
    rcases record_method w (.ofInterface root.name root.location) (keys_hold w root before) r m
      with ⟨p, -, hs, -⟩ | ⟨spec, -, hs, -⟩
    · refine Or.inr ⟨p, ?_⟩
      rw [hstep, hs]
      exact ⟨rfl, rfl, rfl⟩
    · refine Or.inl ⟨spec, ?_⟩
      rw [hstep, hs]
      exact ⟨rfl, rfl⟩

/-- Every walk has an account, of the interfaces in depth-first order. -/
theorem exists_account (w : World) (root : InterfaceDecl) :
    ∃ order events results, w.Preorder [] [.declared root] order ∧
      Account w root order events results := by
  obtain ⟨steps, ht, hplay⟩ := ofRoot_eq_play w root
  exact ⟨_, _, _, preorder_of_trail ht, account_of_trail hplay⟩

/-- An accessor of a walk is a method of an interface that the root reaches. -/
theorem exists_method {w : World} {root : InterfaceDecl} {s : AccessorSpec}
    (h : s ∈ (ofRoot w root).outcome.specs) :
    ∃ r m, w.Reaches (.declared root) r ∧ m ∈ r.methods ∧
      AccessorSpec.ofMethod w.serializer r.name m = .ok s := by
  obtain ⟨order, events, results, hpre, haccount⟩ := exists_account w root
  rw [haccount.specs] at h
  obtain ⟨result, hresult, hs⟩ := List.mem_filterMap.1 h
  obtain ⟨i, hi⟩ := List.mem_iff_getElem?.1 hresult
  have hlength := haccount.concerns.length_eq
  obtain ⟨⟨r, m⟩, hm⟩ : ∃ rm, (methodsOf order)[i]? = some rm := by
    have hlt : i < results.length := (List.getElem?_eq_some_iff.1 hi).1
    exact ⟨_, List.getElem?_eq_getElem (hlength ▸ hlt)⟩
  have hjudged := haccount.judged i r m result hm hi
  have hmem : (r, m) ∈ methodsOf order := List.mem_of_getElem? hm
  obtain ⟨q, hq, hqm⟩ := List.mem_flatMap.1 hmem
  obtain ⟨m', hm', heq⟩ := List.mem_map.1 hqm
  cases heq
  obtain ⟨first, hfirst, hreach⟩ := hpre.reached r hq
  rw [List.mem_singleton.1 hfirst] at hreach
  refine ⟨r, m, hreach, hm', ?_⟩
  cases hjudged with
  | accepted hok _ =>
    cases hs
    exact hok
  | refused _ => cases hs
  | repeated _ _ _ _ => cases hs

theorem mem_issuesOf {order : List Reached} {r : Reached} {i : AttributeIssue} :
    (r, i) ∈ issuesOf order ↔ r ∈ order ∧ i ∈ r.issues := by
  simp only [issuesOf, List.mem_flatMap, List.mem_map, Prod.mk.injEq]
  constructor
  · rintro ⟨q, hq, j, hj, rfl, rfl⟩
    exact ⟨hq, hj⟩
  · rintro ⟨hr, hi⟩
    exact ⟨r, hr, i, hi, rfl, rfl⟩

/-- An issue of a declaration is among the problems of a walk exactly when the walk reaches the
declaration: a name that is reached stands for one interface. -/
theorem Account.issue_mem_iff {w : World} {root d : InterfaceDecl} {order : List Reached}
    {events : List Event} {results : List (Except Problem AccessorSpec)} {i : AttributeIssue}
    (h : Account w root order events results)
    (hroot : w.declarations.get? root.name = some root)
    (horder : ∀ r, r ∈ order ↔ w.Reaches (.declared root) r)
    (hd : w.declarations.get? d.name = some d) (hi : i ∈ d.issues) :
    issueProblem (.declared d) i ∈ (ofRoot w root).outcome.problems ↔
      w.Reaches (.declared root) (.declared d) := by
  have hfilter : issueProblem (.declared d) i ∈ (ofRoot w root).outcome.problems ↔
      issueProblem (.declared d) i ∈ (issuesOf order).map fun e => issueProblem e.1 e.2 := by
    rw [← h.issues, List.mem_filter]
    exact (and_iff_left rfl).symm
  rw [hfilter, List.mem_map]
  constructor
  · rintro ⟨⟨r, j⟩, hmem, heq⟩
    have hreach := (horder r).1 (mem_issuesOf.1 hmem).1
    have hname : r.name = d.name := by
      injection heq
    have hr : r = .declared d :=
      World.Stands.eq_of_name (hreach.stands (show w.Stands (.declared root) from hroot))
        (show w.Stands (.declared d) from hd) hname
    exact hr ▸ hreach
  · intro hreach
    exact ⟨(.declared d, i), mem_issuesOf.2 ⟨(horder _).2 hreach, hi⟩, rfl⟩

/-- Nothing that a walk comes upon is lost: the issues and the methods of exactly the interfaces
that the root reaches are accounted for. An issue of a declaration fails exactly the roots that
reach the declaration. -/
theorem ofRoot_account (w : World) (root : InterfaceDecl)
    (hroot : w.declarations.get? root.name = some root) :
    ∃ order events results,
      w.Preorder [] [.declared root] order ∧
      (∀ r, r ∈ order ↔ w.Reaches (.declared root) r) ∧
      Account w root order events results ∧
      ∀ d i t report, w.declarations.get? d.name = some d → i ∈ d.issues →
        UnitReport.ofRoot w t root = .ok report →
        (Diagnostic.error (issueProblem (.declared d) i) ∈ report.diagnostics ↔
          w.Reaches (.declared root) (.declared d)) ∧
        (w.Reaches (.declared root) (.declared d) → report.isComplete = false) := by
  obtain ⟨steps, ht, hplay⟩ := ofRoot_eq_play w root
  have hpre := preorder_of_trail ht
  have horder := hpre.mem_iff (show w.Stands (.declared root) from hroot)
  have haccount := account_of_trail hplay
  refine ⟨_, _, _, hpre, horder, haccount, ?_⟩
  intro d i t report hd hi hreport
  obtain ⟨rendered, rfl⟩ := UnitReport.exists_rendering hreport
  have hiff : Diagnostic.error (issueProblem (.declared d) i)
        ∈ (UnitReport.ofRendering root (ofRoot w root) rendered).diagnostics ↔
      w.Reaches (.declared root) (.declared d) := by
    rw [UnitReport.error_mem_ofRendering, ← haccount.issue_mem_iff hroot horder hd hi]
    constructor
    · rintro (hp | ⟨fault, -, hp⟩)
      · exact hp
      · cases hp
    · exact Or.inl
  exact ⟨hiff, fun hreach => UnitReport.isComplete_eq_false (hiff.2 hreach)⟩

/-! A root that reads one key twice and has an annotation that cannot be read. -/

def volume : MethodDecl := { name := "volume", returns := .named "i32" }

def getVolume : MethodDecl := { name := "get_volume", returns := .named "i32" }

def soundRoot : InterfaceDecl :=
  { name := "crate::Sound", methods := [volume, getVolume]
    issues := [⟨some "mute", .malformed, none⟩] }

def sound : World := { declarations := ⟨[soundRoot]⟩ }

theorem ofRoot_account_sound :
    sound.declarations.get? soundRoot.name = some soundRoot ∧
    (ofRoot sound soundRoot).outcome.problems.filter Problem.isOfAttribute
      = [.invalidAttribute "crate::Sound" .malformed ⟨"crate::Sound", some "mute", none⟩] ∧
    ∃ s p, (ofRoot sound soundRoot).outcome.specs = [s] ∧ s.method = "volume" ∧
      (ofRoot sound soundRoot).outcome.problems.filter Problem.isOfMethod = [p] ∧
      p.isDuplicate = true := by
  have hroot : sound.declarations.get? soundRoot.name = some soundRoot := rfl
  obtain ⟨order, events, results, hpre, -, haccount, -⟩ := ofRoot_account sound soundRoot hroot
  have hlist : sound.Preorder [] [.declared soundRoot] (.declared soundRoot :: ([] ++ [])) :=
    .enter List.not_mem_nil .done .done
  obtain rfl : order = [.declared soundRoot] := hpre.unique hlist
  obtain ⟨s, hs, hrole, hkey⟩ : ∃ s, AccessorSpec.ofMethod none "crate::Sound" volume = .ok s
      ∧ s.role = .getter ∧ s.key = "volume" := ⟨_, rfl, rfl, rfl⟩
  obtain ⟨s', hs', hrole', hkey'⟩ : ∃ s, AccessorSpec.ofMethod none "crate::Sound" getVolume = .ok s
      ∧ s.role = .getter ∧ s.key = "volume" := ⟨_, rfl, rfl, rfl⟩
  obtain ⟨first, second, rfl⟩ : ∃ first second, results = [first, second] :=
    List.length_eq_two.1 haccount.concerns.length_eq.symm
  have hfirst : first = .ok s := by
    have hj := haccount.judged 0 (.declared soundRoot) volume first rfl rfl
    cases hj with
    | refused hp => cases hs.symm.trans hp
    | repeated _ he _ _ => cases he
    | accepted ha _ => rw [Except.ok.inj (hs.symm.trans ha)]
  subst hfirst
  obtain ⟨p, rfl, hdup⟩ :=
    (haccount.duplicate_iff 1 (.declared soundRoot) getVolume second rfl rfl).2
      ⟨s', hs', s, List.mem_singleton_self s, hrole.trans hrole'.symm, hkey.trans hkey'.symm⟩
  refine ⟨hroot, haccount.issues, s, p, haccount.specs, ?_, haccount.problems, hdup⟩
  exact (AccessorSpec.ofMethod_ok hs).2.1

end Walk

end TypedSettings
