import TypedSettings.Proofs.Interface.Found
import TypedSettings.Proofs.Interface.Traits

/-!
Sets of declarations under calls. Declarations are offered to a set one by one or source by source;
of each name the first is kept, in the order in which the names were first offered. A source that
cannot be read offers nothing and leaves the set as it was.

* `Call.run`: what a call does to a set.
* `Call.Offers`: the declarations that a call offers, in order.
* `Keeps`: a set keeps the first declaration of each name.
* `keeps_runAll`: a set after calls.
-/

namespace TypedSettings

open Source

namespace Declarations

/-! ## Calls -/

/-- A call on a set of declarations. -/
inductive Call where
  | insert (i : InterfaceDecl)
  | addSource (s : SourceText)

namespace Call

/-- What a call does to a set. What was added before a fault stays. -/
def run : Call → ExceptT Problem (StateM Declarations) Unit
  | insert i => modify fun d => d.insert i
  | addSource s => do
    let found ← ExceptT.mk (pure (ofText s))
    found.forM fun i => modify fun d => d.insert i

/-- The declarations that a call offers, in order. A source offers what stands in its text, told
with its file. -/
inductive Offers : Call → List InterfaceDecl → Prop
  | insert (i : InterfaceDecl) : Offers (.insert i) [i]
  | source {s : SourceText} {trees : List Tree} {ds : List InterfaceDecl} :
      readFile s.text = .ok trees →
      Lists (Scope.ofItems s.module (trees.drop 1)) (trees.drop 1) ds →
      Offers (.addSource s) (ds.map (InterfaceDecl.inFile s.file))
  | unreadable {s : SourceText} {fault : SyntaxFault} :
      readFile s.text = .error fault → Offers (.addSource s) []

theorem run_forM (found : List InterfaceDecl) (d : Declarations) :
    (found.forM fun i => (modify fun d => d.insert i : ExceptT Problem (StateM Declarations) Unit))
      d = (.ok (), found.foldl Declarations.insert d) := by
  induction found generalizing d with
  | nil => rfl
  | cons i found ih => exact ih (d.insert i)

/-- A source is added, or the set stays as it was. -/
theorem run_addSource (s : SourceText) (d : Declarations) :
    (addSource s).run d = match d.addSource s with
      | .ok d' => (.ok (), d')
      | .error problem => (.error problem, d) := by
  rw [Declarations.addSource]
  cases hread : ofText s with
  | ok found =>
    have hrun : (addSource s).run = found.forM fun i => modify fun d => d.insert i := by
      rw [run, hread]
      rfl
    rw [hrun]
    exact run_forM found d
  | error problem =>
    have hrun : (addSource s).run = throw problem := by
      rw [run, hread]
      rfl
    rw [hrun]
    rfl

/-- Only a source that cannot be read fails, and it leaves the set as it was. -/
theorem run_eq_error_iff {call : Call} {d d' : Declarations} {problem : Problem} :
    call.run d = (.error problem, d') ↔ d' = d ∧ ∃ s fault, call = .addSource s ∧
      readFile s.text = .error fault ∧ problem = .unparsable s.label := by
  constructor
  · intro h
    cases call with
    | insert i => cases h
    | addSource s =>
      rw [run_addSource, Declarations.addSource, ofText] at h
      cases hread : readFile s.text with
      | ok trees =>
        rw [hread] at h
        cases h
      | error fault =>
        rw [hread] at h
        obtain ⟨hproblem, hset⟩ := Prod.mk.inj h
        exact ⟨hset.symm, s, fault, rfl, hread, (Except.error.inj hproblem).symm⟩
  · rintro ⟨rfl, s, fault, rfl, hread, rfl⟩
    rw [run_addSource, Declarations.addSource, ofText, hread]
    rfl

theorem exists_offers (call : Call) : ∃ found, call.Offers found := by
  cases call with
  | insert i => exact ⟨_, .insert i⟩
  | addSource s =>
    cases hread : readFile s.text with
    | error fault => exact ⟨[], .unreadable hread⟩
    | ok trees =>
      obtain ⟨found, hfound⟩ : ∃ found, ofText s = .ok found := ⟨_, by rw [ofText, hread]⟩
      obtain ⟨trees', ds, hread', hlists, -⟩ := ofText_eq_ok_iff.1 hfound
      exact ⟨_, .source hread' hlists⟩

end Call

/-- What calls do to a set, failing ones included, and how each of them ends. -/
def runAll (calls : List Call) : StateM Declarations (List (Except Problem Unit)) :=
  calls.mapM fun call => call.run.run

/-! ## What is kept -/

/-- The place of the first offer of a name. -/
def firstOffer (offered : List InterfaceDecl) (name : String) : Nat :=
  offered.findIdx fun i => i.name == name

/-- The name of one declaration was first offered before the name of another. -/
def OfferedBefore (offered : List InterfaceDecl) (i j : InterfaceDecl) : Prop :=
  firstOffer offered i.name < firstOffer offered j.name

section

variable {offered : List InterfaceDecl} {i j : InterfaceDecl}

theorem firstOffer_lt (h : i ∈ offered) : firstOffer offered i.name < offered.length :=
  List.findIdx_lt_length_of_exists ⟨i, h, beq_self_eq_true _⟩

/-- Later offers do not move the first one. -/
theorem firstOffer_append (h : i ∈ offered) (more : List InterfaceDecl) :
    firstOffer (offered ++ more) i.name = firstOffer offered i.name := by
  have hlt := firstOffer_lt h
  rw [firstOffer] at hlt
  rw [firstOffer, List.findIdx_append, if_pos hlt]
  rfl

theorem OfferedBefore.append (h : OfferedBefore offered i j) (hi : i ∈ offered)
    (hj : j ∈ offered) (more : List InterfaceDecl) : OfferedBefore (offered ++ more) i j := by
  rw [OfferedBefore, firstOffer_append hi, firstOffer_append hj]
  exact h

/-- What was offered comes before what is new. -/
theorem offeredBefore_new (hj : j ∈ offered)
    (hnew : (offered.find? fun k => k.name == i.name) = none) :
    OfferedBefore (offered ++ [i]) j i := by
  have hnone : firstOffer offered i.name = offered.length :=
    List.findIdx_eq_length_of_false fun k hk => by simpa using List.find?_eq_none.1 hnew k hk
  rw [firstOffer] at hnone
  have hafter : offered.length ≤ firstOffer (offered ++ [i]) i.name := by
    rw [firstOffer, List.findIdx_append, if_neg (Nat.not_lt.2 (Nat.le_of_eq hnone.symm))]
    exact Nat.le_add_left _ _
  rw [OfferedBefore, firstOffer_append hj]
  exact Nat.lt_of_lt_of_le (firstOffer_lt hj) hafter

end

/-- A set keeps the first declaration of each name that was offered, in the order in which the
names were first offered. -/
structure Keeps (d : Declarations) (offered : List InterfaceDecl) : Prop where
  distinct : d.Distinct
  get? : ∀ name, d.get? name = offered.find? fun i => i.name == name
  ordered : d.interfaces.Pairwise (OfferedBefore offered)

theorem keeps_nil : Keeps {} [] where
  distinct := List.nodup_nil
  get? _ := rfl
  ordered := .nil

section

variable {d : Declarations} {offered : List InterfaceDecl}

theorem Keeps.mem_offered (h : d.Keeps offered) {i : InterfaceDecl} (hi : i ∈ d.interfaces) :
    i ∈ offered := by
  have hfirst := h.distinct.mem_iff.1 hi
  rw [h.get?] at hfirst
  exact List.mem_of_find?_eq_some hfirst

theorem Keeps.insert (h : d.Keeps offered) (i : InterfaceDecl) :
    (d.insert i).Keeps (offered ++ [i]) where
  distinct := h.distinct.insert i
  get? name := by
    rw [get?_insert, h.get?, List.find?_append, List.find?_singleton]
    simp
  ordered := by
    have hold : d.interfaces.Pairwise (OfferedBefore (offered ++ [i])) := by
      refine h.ordered.imp_of_mem fun {j k} hj hk hbefore => ?_
      exact hbefore.append (h.mem_offered hj) (h.mem_offered hk) [i]
    unfold Declarations.insert
    split
    · exact hold
    · next hunknown =>
      have hnew : (offered.find? fun k => k.name == i.name) = none := by
        rw [← h.get?]
        exact Option.not_isSome_iff_eq_none.1 hunknown
      refine List.pairwise_append.2 ⟨hold, List.pairwise_singleton _ _, fun j hj k hk => ?_⟩
      rw [List.mem_singleton.1 hk]
      exact offeredBefore_new (h.mem_offered hj) hnew

theorem Keeps.foldl_insert (h : d.Keeps offered) (found : List InterfaceDecl) :
    (found.foldl Declarations.insert d).Keeps (offered ++ found) := by
  induction found generalizing d offered with
  | nil => rwa [List.append_nil]
  | cons i found ih =>
    have hrest := ih (h.insert i)
    rwa [List.append_assoc, List.singleton_append] at hrest

/-- A call adds what it offers. -/
theorem Keeps.run (h : d.Keeps offered) {call : Call} {found : List InterfaceDecl}
    (hoffers : call.Offers found) : (call.run d).2.Keeps (offered ++ found) := by
  cases hoffers with
  | insert i => exact h.insert i
  | source hread hlists =>
    have hfound := ofText_eq_ok_iff.2 ⟨_, _, hread, hlists, rfl⟩
    rw [Call.run_addSource, addSource, hfound]
    exact h.foldl_insert _
  | unreadable hread =>
    rw [Call.run_addSource, addSource, ofText, hread, List.append_nil]
    exact h

/-- Calls add what they offer, one after the other. -/
theorem Keeps.runAll (h : d.Keeps offered) {calls : List Call} {offers : List (List InterfaceDecl)}
    (hoffers : List.Forall₂ Call.Offers calls offers) :
    (Declarations.runAll calls d).2.Keeps (offered ++ offers.flatten) := by
  induction hoffers generalizing d offered with
  | nil => rwa [List.flatten_nil, List.append_nil]
  | @cons call found calls offers hcall _ ih =>
    have hrest := ih (h.run hcall)
    rw [List.append_assoc] at hrest
    rw [List.flatten_cons, Declarations.runAll, List.mapM_cons]
    exact hrest

/-- The declarations that open a store come in the order of the first offers too. -/
theorem Keeps.ordered_roots (h : d.Keeps offered) : d.roots.Pairwise (OfferedBefore offered) :=
  h.ordered.filter _

end

end Declarations

end TypedSettings
