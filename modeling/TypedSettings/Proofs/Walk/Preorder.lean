import Mathlib.Logic.Relation
import TypedSettings.Walk

/-!
The graph that a walk goes through, and the depth-first order in it. An edge leads from an interface
to what one of its references resolves to, the actions left out (`World.Edge`). `World.Preorder`
says in which order interfaces are listed, over the graph alone: no walk occurs in it.

* `World.Stands.eq_of_name`: under a name stands one interface, declared or external, not both.
* `Preorder.unique`: the order is determined by where it starts.
* `Preorder.nodup`: no name is listed twice.
* `Preorder.mem_iff`: from one interface, exactly what it reaches is listed.
-/

namespace TypedSettings

namespace World

/-! ## The graph -/

/-- `s` is what a reference of `r` resolves to, where the reference does not stand for the
actions. -/
def Edge (w : World) (r s : Reached) : Prop :=
  ∃ a ∈ r.ancestors, w.isContract a = false ∧ w.resolve? a = some s

/-- `r` leads to `s` over any number of edges. -/
def Reaches (w : World) : Reached → Reached → Prop := Relation.ReflTransGen w.Edge

/-- Where a reference leads. -/
def next? (w : World) (a : AncestorRef) : Option Reached :=
  if w.isContract a then none else w.resolve? a

/-- The interfaces that an interface has edges to, in the order its references are written. -/
def successors (w : World) (r : Reached) : List Reached := r.ancestors.filterMap w.next?

theorem next?_eq_some {w : World} {a : AncestorRef} {r : Reached} :
    w.next? a = some r ↔ w.isContract a = false ∧ w.resolve? a = some r := by
  unfold next?
  cases w.isContract a <;> simp

theorem mem_successors {w : World} {r s : Reached} : s ∈ w.successors r ↔ w.Edge r s := by
  unfold successors Edge
  rw [List.mem_filterMap]
  refine exists_congr fun a => and_congr_right fun _ => ?_
  exact next?_eq_some

/-! ## What a name stands for -/

/-- The interface is what its own name stands for: a declaration, or an external interface whose
name is not declared. -/
def Stands (w : World) : Reached → Prop
  | .declared d => w.declarations.get? d.name = some d
  | .external e => w.declarations.get? e.name = none ∧ w.registry.get? e.name = some e

/-- What a name stands for by itself: a declaration comes before an external interface. -/
def named? (w : World) (name : String) : Option Reached :=
  match w.declarations.get? name with
  | some d => some (.declared d)
  | none => (w.registry.get? name).map .external

theorem Stands.named? {w : World} {r : Reached} (h : w.Stands r) : w.named? r.name = some r := by
  cases r with
  | declared d => simp only [World.named?, Reached.name, show _ = some d from h]
  | external e => simp only [World.named?, Reached.name, h.1, h.2, Option.map_some]

theorem Stands.eq_of_name {w : World} {r s : Reached} (hr : w.Stands r) (hs : w.Stands s)
    (h : r.name = s.name) : r = s := by
  have hname := hr.named?
  rw [h, hs.named?] at hname
  exact (Option.some.inj hname).symm

theorem name_of_get? {d : Declarations} {name : String} {i : InterfaceDecl}
    (h : d.get? name = some i) : i.name = name := by
  simpa using List.find?_some h

theorem name_of_registry_get? {r : Registry} {name : String} {e : ExternalInterface}
    (h : r.get? name = some e) : e.name = name := by
  simpa using List.find?_some h

/-- A reference resolves to what its name stands for: an external interface is taken only when no
candidate is declared, so its own name is not. -/
theorem stands_of_resolve? {w : World} {a : AncestorRef} {r : Reached}
    (h : w.resolve? a = some r) : w.Stands r := by
  unfold resolve? at h
  split at h
  · next d hd =>
    obtain ⟨name, -, hname⟩ := List.exists_of_findSome?_eq_some hd
    cases h
    show w.declarations.get? d.name = some d
    rw [name_of_get? hname]
    exact hname
  · next hnone =>
    obtain ⟨e, he, rfl⟩ := Option.map_eq_some_iff.1 h
    obtain ⟨name, hmem, hname⟩ := List.exists_of_findSome?_eq_some he
    have hfree : w.declarations.get? name = none := List.findSome?_eq_none_iff.1 hnone name hmem
    show w.declarations.get? e.name = none ∧ w.registry.get? e.name = some e
    rw [name_of_registry_get? hname]
    exact ⟨hfree, hname⟩

/-- What is reached is where the way starts, or what a reference resolves to. -/
theorem Reaches.eq_or_stands {w : World} {r s : Reached} (h : w.Reaches r s) :
    s = r ∨ w.Stands s := by
  rcases Relation.ReflTransGen.cases_tail h with rfl | ⟨q, -, a, -, -, ha⟩
  · exact .inl rfl
  · exact .inr (stands_of_resolve? ha)

theorem Reaches.stands {w : World} {r s : Reached} (h : w.Reaches r s) (hr : w.Stands r) :
    w.Stands s := by
  rcases h.eq_or_stands with rfl | hs
  · exact hr
  · exact hs

/-! ## Depth-first order -/

/-- `w.Preorder seen todo order`: listing the interfaces `todo` depth first, when the names `seen`
are listed already, lists `order`. An interface whose name is listed is skipped; any other stands
before those that it leads to, and they stand before the rest of `todo`. -/
inductive Preorder (w : World) : List String → List Reached → List Reached → Prop
  | done {seen : List String} : Preorder w seen [] []
  | skip {seen : List String} {r : Reached} {todo order : List Reached} :
      r.name ∈ seen → Preorder w seen todo order → Preorder w seen (r :: todo) order
  | enter {seen : List String} {r : Reached} {todo below after : List Reached} :
      r.name ∉ seen →
      Preorder w (seen ++ [r.name]) (w.successors r) below →
      Preorder w (seen ++ r.name :: below.map Reached.name) todo after →
      Preorder w seen (r :: todo) (r :: (below ++ after))

namespace Preorder

variable {w : World} {seen : List String} {todo order : List Reached}

theorem unique {order' : List Reached} (h : w.Preorder seen todo order)
    (h' : w.Preorder seen todo order') : order = order' := by
  induction h generalizing order' with
  | done => cases h'; rfl
  | skip hr _ ih =>
    cases h' with
    | skip _ h' => exact ih h'
    | enter hr' _ _ => exact absurd hr hr'
  | enter hr _ _ ihb iha =>
    cases h' with
    | skip hr' _ => exact absurd hr' hr
    | enter _ hb' ha' =>
      have hb := ihb hb'
      subst hb
      rw [iha ha']

/-- What is listed is new, and listed once. -/
theorem nodup_append (h : w.Preorder seen todo order) (hs : seen.Nodup) :
    (seen ++ order.map Reached.name).Nodup := by
  induction h with
  | done => simpa using hs
  | skip _ _ ih => exact ih hs
  | @enter seen r todo below after hr _ _ ihb iha =>
    have hseen : (seen ++ [r.name]).Nodup :=
      List.nodup_append.2 ⟨hs, by simp, by
        intro a ha b hb hab
        rw [List.mem_singleton] at hb
        exact hr (hb ▸ hab ▸ ha)⟩
    have hbelow := ihb hseen
    rw [List.append_assoc, List.singleton_append] at hbelow
    have hafter := iha hbelow
    simpa using hafter

theorem nodup (h : w.Preorder [] todo order) : (order.map Reached.name).Nodup := by
  simpa using h.nodup_append List.nodup_nil

/-- What is to be listed ends up listed. -/
theorem todo_listed (h : w.Preorder seen todo order) :
    ∀ r ∈ todo, r.name ∈ seen ++ order.map Reached.name := by
  induction h with
  | done => simp
  | skip hr _ ih =>
    intro s hs
    rcases List.mem_cons.1 hs with rfl | hs
    · exact List.mem_append_left _ hr
    · exact ih s hs
  | enter hr _ _ _ iha =>
    intro s hs
    rcases List.mem_cons.1 hs with rfl | hs
    · simp
    · have := iha s hs
      simpa [or_assoc] using this

/-- What is listed has its successors listed too. -/
theorem successors_listed (h : w.Preorder seen todo order) :
    ∀ r ∈ order, ∀ s ∈ w.successors r, s.name ∈ seen ++ order.map Reached.name := by
  induction h with
  | done => simp
  | skip _ _ ih => exact ih
  | @enter seen r todo below after hr hb ha ihb iha =>
    intro q hq s hs
    have inner : s.name ∈ (seen ++ [r.name]) ++ below.map Reached.name →
        s.name ∈ seen ++ (r :: (below ++ after)).map Reached.name := by
      intro hm
      rw [List.append_assoc, List.singleton_append] at hm
      rw [List.map_cons, List.map_append, ← List.cons_append, ← List.append_assoc]
      exact List.mem_append_left _ hm
    rcases List.mem_cons.1 hq with rfl | hq
    · exact inner (hb.todo_listed s hs)
    · rcases List.mem_append.1 hq with hq | hq
      · exact inner (ihb q hq s hs)
      · have := iha q hq s hs
        simpa [or_assoc] using this

/-- What is listed is reached from something that was to be listed. -/
theorem reached (h : w.Preorder seen todo order) :
    ∀ s ∈ order, ∃ r ∈ todo, w.Reaches r s := by
  induction h with
  | done => simp
  | skip _ _ ih =>
    intro s hs
    obtain ⟨q, hq, hqs⟩ := ih s hs
    exact ⟨q, List.mem_cons_of_mem _ hq, hqs⟩
  | @enter seen r todo below after _ _ _ ihb iha =>
    intro s hs
    rcases List.mem_cons.1 hs with rfl | hs
    · exact ⟨s, List.mem_cons_self, Relation.ReflTransGen.refl⟩
    · rcases List.mem_append.1 hs with hs | hs
      · obtain ⟨q, hq, hqs⟩ := ihb s hs
        exact ⟨r, List.mem_cons_self, Relation.ReflTransGen.head (mem_successors.1 hq) hqs⟩
      · obtain ⟨q, hq, hqs⟩ := iha s hs
        exact ⟨q, List.mem_cons_of_mem _ hq, hqs⟩

/-- From one interface that its name stands for, exactly what it reaches is listed. A name that is
listed stands for one interface, so a skipped interface is the one that is listed. -/
theorem mem_iff {root : Reached} (h : w.Preorder [] [root] order) (hroot : w.Stands root)
    (s : Reached) : s ∈ order ↔ w.Reaches root s := by
  have sound : ∀ s ∈ order, w.Reaches root s := by
    intro s hs
    obtain ⟨r, hr, hrs⟩ := h.reached s hs
    rw [List.mem_singleton] at hr
    exact hr ▸ hrs
  have listed : ∀ s, w.Stands s → s.name ∈ [] ++ order.map Reached.name → s ∈ order := by
    intro s hs hm
    obtain ⟨q, hq, hname⟩ := List.mem_map.1 (by simpa using hm)
    rw [← ((sound q hq).stands hroot).eq_of_name hs hname]
    exact hq
  constructor
  · exact sound s
  · intro hs
    induction hs with
    | refl => exact listed root hroot (h.todo_listed root List.mem_cons_self)
    | @tail b c hrb hbc ih =>
      have hc : w.Stands c := Reaches.stands (.tail hrb hbc) hroot
      exact listed c hc (h.successors_listed b ih c (mem_successors.2 hbc))

end Preorder

end World

end TypedSettings
