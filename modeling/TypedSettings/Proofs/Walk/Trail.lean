import TypedSettings.Proofs.Walk.Preorder

/-!
What a walk comes upon, step by step. The walk keeps one list of references that are left to follow;
`Trail` is the same search as a recursion over the graph, where what an interface leads to is
searched before the references beside it. A walk is the trail of its root, played from the start.

* `Trail.split`: following two lists of references is following one after the other.
* `exists_trail`: a walk plays a trail, from any state.
* `Trail.preorder`: the interfaces of a trail stand in depth-first order.
* `ofRoot_preorder`: so do the interfaces that a walk lists.
-/

namespace TypedSettings

namespace Walk

/-- What a walk comes upon: an interface that is not listed yet, or a reference that leads
nowhere. -/
inductive Step where
  | visit (r : Reached)
  | dangling (a : AncestorRef)

namespace Step

def interface? : Step → Option Reached
  | visit r => some r
  | dangling _ => none

end Step

/-- The interfaces that are visited. -/
def visited (steps : List Step) : List Reached := steps.filterMap Step.interface?

def visitedNames (steps : List Step) : List String := (visited steps).map Reached.name

/-- Takes a step. `site` is charged with references that lead nowhere. -/
def take (w : World) (site : Attribution) (s : Walk) : Step → Walk
  | .visit r => s.visit w r
  | .dangling a => s.fail (.unresolvableAncestor a.written site.interface site)

@[simp] theorem visited_nil : visited [] = [] := rfl

@[simp] theorem visited_visit (r : Reached) (steps : List Step) :
    visited (.visit r :: steps) = r :: visited steps := rfl

@[simp] theorem visited_dangling (a : AncestorRef) (steps : List Step) :
    visited (.dangling a :: steps) = visited steps := rfl

@[simp] theorem visited_append (steps steps' : List Step) :
    visited (steps ++ steps') = visited steps ++ visited steps' := List.filterMap_append

theorem interfaces_play (w : World) (site : Attribution) (steps : List Step) (s : Walk) :
    (steps.foldl (take w site) s).interfaces = s.interfaces ++ visitedNames steps := by
  induction steps generalizing s with
  | nil => simp [visitedNames]
  | cons step steps ih =>
    rw [List.foldl_cons, ih]
    cases step with
    | visit r => simp [take, visit, visitedNames]
    | dangling a => simp [take, fail, visitedNames]

/-! ## Trails -/

/-- `Trail w seen todo steps`: following the references `todo` depth first, when the names `seen`
are listed, comes upon `steps`. -/
inductive Trail (w : World) : List String → List AncestorRef → List Step → Prop
  | done {seen : List String} : Trail w seen [] []
  /-- the actions are not walked -/
  | contract {seen : List String} {a : AncestorRef} {rest : List AncestorRef} {steps : List Step} :
      w.isContract a = true → Trail w seen rest steps → Trail w seen (a :: rest) steps
  | dangling {seen : List String} {a : AncestorRef} {rest : List AncestorRef} {steps : List Step} :
      w.isContract a = false → w.resolve? a = none → Trail w seen rest steps →
      Trail w seen (a :: rest) (.dangling a :: steps)
  | again {seen : List String} {a : AncestorRef} {r : Reached} {rest : List AncestorRef}
      {steps : List Step} :
      w.isContract a = false → w.resolve? a = some r → r.name ∈ seen → Trail w seen rest steps →
      Trail w seen (a :: rest) steps
  | visit {seen : List String} {a : AncestorRef} {r : Reached} {rest : List AncestorRef}
      {below after : List Step} :
      w.isContract a = false → w.resolve? a = some r → r.name ∉ seen →
      Trail w (seen ++ [r.name]) r.ancestors below →
      Trail w (seen ++ r.name :: visitedNames below) rest after →
      Trail w seen (a :: rest) (.visit r :: (below ++ after))

variable {w : World} {seen : List String}

/-- A trail over two lists is a trail over the first, then one over the second with more names
listed. -/
theorem Trail.split {xs ys : List AncestorRef} {steps : List Step}
    (h : Trail w seen (xs ++ ys) steps) :
    ∃ first second, steps = first ++ second ∧ Trail w seen xs first ∧
      Trail w (seen ++ visitedNames first) ys second := by
  induction xs generalizing seen steps with
  | nil => exact ⟨[], steps, rfl, .done, by simpa [visitedNames] using h⟩
  | cons x xs ih =>
    rw [List.cons_append] at h
    cases h with
    | contract hc hrest =>
      obtain ⟨first, second, rfl, hfirst, hsecond⟩ := ih hrest
      exact ⟨first, second, rfl, .contract hc hfirst, hsecond⟩
    | dangling hc hn hrest =>
      obtain ⟨first, second, rfl, hfirst, hsecond⟩ := ih hrest
      exact ⟨.dangling x :: first, second, rfl, .dangling hc hn hfirst, hsecond⟩
    | again hc hr hs hrest =>
      obtain ⟨first, second, rfl, hfirst, hsecond⟩ := ih hrest
      exact ⟨first, second, rfl, .again hc hr hs hfirst, hsecond⟩
    | @visit _ _ r _ below _ hc hr hs hbelow hafter =>
      obtain ⟨first, second, rfl, hfirst, hsecond⟩ := ih hafter
      refine ⟨.visit r :: (below ++ first), second, by simp, .visit hc hr hs hbelow hfirst, ?_⟩
      simpa [visitedNames] using hsecond

/-- Following references plays a trail. The induction is the walk's own: the references of a visited
interface stand in front of the others, and the trail is split between the two. -/
theorem exists_trail (w : World) (site : Attribution) (todo : List AncestorRef) (s : Walk) :
    ∃ steps, Trail w s.interfaces todo steps ∧
      follow w site todo s = steps.foldl (take w site) s := by
  fun_induction follow w site todo s with
  | case1 s => exact ⟨[], .done, rfl⟩
  | case2 a rest s hc ih =>
    obtain ⟨steps, ht, hf⟩ := ih
    exact ⟨steps, .contract hc ht, hf⟩
  | case3 a rest s hc hr ih =>
    obtain ⟨steps, ht, hf⟩ := ih
    exact ⟨.dangling a :: steps, .dangling (by simpa using hc) hr ht, hf⟩
  | case4 a rest s hc r hr hs ih =>
    obtain ⟨steps, ht, hf⟩ := ih
    exact ⟨steps, .again (by simpa using hc) hr hs ht, hf⟩
  | case5 a rest s hc r hr hs ih =>
    obtain ⟨steps, ht, hf⟩ := ih
    obtain ⟨below, after, rfl, hbelow, hafter⟩ := ht.split
    refine ⟨.visit r :: (below ++ after), .visit (by simpa using hc) hr hs hbelow ?_, hf⟩
    simpa [visit, visitedNames] using hafter

/-- The interfaces of a trail stand in depth-first order. -/
theorem Trail.preorder {todo : List AncestorRef} {steps : List Step} (h : Trail w seen todo steps) :
    w.Preorder seen (todo.filterMap w.next?) (visited steps) := by
  induction h with
  | done => exact .done
  | contract hc _ ih => simpa [World.next?, hc] using ih
  | dangling hc hn _ ih => simpa [World.next?, hc, hn] using ih
  | @again seen a r rest steps hc hr hs _ ih =>
    rw [List.filterMap_cons_some (World.next?_eq_some.2 ⟨hc, hr⟩)]
    exact .skip hs ih
  | @visit seen a r rest below after hc hr hs _ _ ihb iha =>
    rw [List.filterMap_cons_some (World.next?_eq_some.2 ⟨hc, hr⟩), visited_visit, visited_append]
    exact .enter hs ihb iha

/-! ## Walks from a root -/

/-- A walk visits its root, then plays the trail of the root's references. -/
theorem ofRoot_eq_play (w : World) (root : InterfaceDecl) :
    ∃ steps, Trail w [root.name] root.ancestors steps ∧
      ofRoot w root = (Step.visit (.declared root) :: steps).foldl
        (take w (.ofInterface root.name root.location)) {} := by
  obtain ⟨steps, ht, hf⟩ := exists_trail w (.ofInterface root.name root.location) root.ancestors
    (({} : Walk).visit w (.declared root))
  exact ⟨steps, ht, hf⟩

/-- A root without references visits itself alone. -/
theorem ofRoot_alone {w : World} {root : InterfaceDecl} (hroot : root.ancestors = []) :
    ofRoot w root = ({} : Walk).visit w (.declared root) := by
  rw [ofRoot, hroot]
  exact follow.eq_1 _ _ _

/-- A root with one reference, to an interface without references, visits the two. -/
theorem ofRoot_leaf {w : World} {root : InterfaceDecl} {a : AncestorRef} {r : Reached}
    (hroot : root.ancestors = [a]) (hcontract : w.isContract a = false)
    (hresolve : w.resolve? a = some r) (hleaf : r.ancestors = []) (hnew : r.name ≠ root.name) :
    ofRoot w root = (({} : Walk).visit w (.declared root)).visit w r := by
  have hunseen : r.name ∉ (({} : Walk).visit w (.declared root)).interfaces :=
    fun h => hnew (List.mem_singleton.1 h)
  rw [ofRoot, hroot, follow, if_neg (by rw [hcontract]; exact Bool.false_ne_true)]
  split
  · next hnone => rw [hresolve] at hnone; cases hnone
  · next r' hr' =>
    rw [hresolve] at hr'
    cases hr'
    rw [dif_neg hunseen, hleaf]
    exact follow.eq_1 _ _ _

/-- The steps of a walk list its interfaces in depth-first order from the root. -/
theorem preorder_of_trail {root : InterfaceDecl} {steps : List Step}
    (h : Trail w [root.name] root.ancestors steps) :
    w.Preorder [] [.declared root] (visited (.visit (.declared root) :: steps)) := by
  have : w.Preorder [] [.declared root] (.declared root :: (visited steps ++ [])) :=
    .enter (by simp) h.preorder .done
  simpa using this

/-- The walk of a root ends, with the names of exactly the interfaces that the root reaches, each
once, in depth-first order; and among these a name stands for one interface alone. -/
theorem ofRoot_preorder (w : World) (root : InterfaceDecl)
    (hroot : w.declarations.get? root.name = some root) :
    ∃ order : List Reached,
      (ofRoot w root).interfaces = order.map Reached.name ∧
      (ofRoot w root).interfaces.Nodup ∧
      (∀ r, r ∈ order ↔ w.Reaches (.declared root) r) ∧
      (∀ other, w.Preorder [] [.declared root] other ↔ other = order) ∧
      (∀ r s, w.Reaches (.declared root) r → w.Reaches (.declared root) s → r.name = s.name →
        r = s) := by
  obtain ⟨steps, ht, hplay⟩ := ofRoot_eq_play w root
  have horder := preorder_of_trail ht
  have hstands : w.Stands (.declared root) := hroot
  have hnames : (ofRoot w root).interfaces
      = (visited (.visit (.declared root) :: steps)).map Reached.name := by
    rw [hplay, interfaces_play]
    simp [visitedNames]
  refine ⟨visited (.visit (.declared root) :: steps), hnames, ?_, horder.mem_iff hstands, ?_, ?_⟩
  · rw [hnames]
    exact horder.nodup
  · intro other
    exact ⟨fun h => h.unique horder, fun h => h ▸ horder⟩
  · intro r s hr hs hname
    exact (hr.stands hstands).eq_of_name (hs.stands hstands) hname

/-! A root over a ring: `Settings` and `Shared` inherit from each other, both inherit from the
external `Base`, and that extends itself and `Shared`. -/

def ringSettings : InterfaceDecl :=
  { name := "crate::Settings", ancestors := [.exact "crate::Shared", .exact "vendor::Base"] }

def ringShared : InterfaceDecl :=
  { name := "crate::Shared", ancestors := [.exact "crate::Settings", .exact "vendor::Base"] }

def ringBase : ExternalInterface := ⟨"vendor::Base", ["vendor::Base", "crate::Shared"], []⟩

def ring : World := { declarations := ⟨[ringShared, ringSettings]⟩, registry := ⟨[ringBase]⟩ }

theorem ofRoot_preorder_ring :
    ring.declarations.get? ringSettings.name = some ringSettings ∧
    (ofRoot ring ringSettings).interfaces
      = ["crate::Settings", "crate::Shared", "vendor::Base"] := by
  have hroot : ring.declarations.get? ringSettings.name = some ringSettings := rfl
  obtain ⟨order, hnames, -, -, hpre, -⟩ := ofRoot_preorder ring ringSettings hroot
  have hbelow : ring.Preorder ["crate::Settings", "crate::Shared", "vendor::Base"]
      (ring.successors (.external ringBase)) [] :=
    .skip (show "vendor::Base" ∈ _ by decide) (.skip (show "crate::Shared" ∈ _ by decide) .done)
  have hbase : ring.Preorder ["crate::Settings", "crate::Shared"] [.external ringBase]
      (.external ringBase :: ([] ++ [])) :=
    .enter (show "vendor::Base" ∉ _ by decide) hbelow .done
  have hshared : ring.Preorder ["crate::Settings", "crate::Shared"]
      (ring.successors (.declared ringShared)) [.external ringBase] :=
    .skip (show "crate::Settings" ∈ _ by decide) hbase
  have hrest : ring.Preorder ["crate::Settings"] (ring.successors (.declared ringSettings))
      (.declared ringShared :: ([.external ringBase] ++ [])) :=
    .enter (show "crate::Shared" ∉ _ by decide) hshared
      (.skip (show "vendor::Base" ∈ _ by decide) .done)
  have hlist : ring.Preorder [] [.declared ringSettings]
      (.declared ringSettings :: ([.declared ringShared, .external ringBase] ++ [])) :=
    .enter (by simp) hrest .done
  refine ⟨hroot, ?_⟩
  rw [hnames, ← (hpre _).1 hlist]
  rfl

end Walk

end TypedSettings
