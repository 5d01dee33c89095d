import TypedSettings.Proofs.Source.Uses
import TypedSettings.Scope

/-!
What use declarations bring into a module. A leaf of a use tree stands behind the segments of the
path to it, and at a place among the members of the groups on the way. Of the leaves that bind a
name the last one counts; the members of a module are in scope for every leaf that says so.

* `UseTree.Leaf`, `UseEnd.Binds`: the leaves of a tree, and what they bind.
* `UseTree.leaves`, `UseTree.mem_leaves`, `UseTree.pairwise_leaves`: all leaves, in order.
* `UseTree.Shapes.ofTreeFuel`: what a scope takes from a tree.
* `Scope.ofItems_flattens`: the names and modules that the items of a module bring into scope.
-/

namespace TypedSettings

open Source

namespace Source

/-! ## Ends of paths -/

namespace UseEnd

/-- An end of a path behind segments binds a name to a path. `self` stands for the segments, under
the name of the last one. -/
inductive Binds (before : Segments) : UseEnd → String → Segments → Prop
  | name {w : String} : w ≠ "self" → Binds before (name w) w (before ++ [w])
  | self {last : String} : before.getLast? = some last → Binds before (name "self") last before
  | renamed {w called : String} : w ≠ "self" →
      Binds before (renamed w called) called (before ++ [w])
  | renamedSelf {called : String} : Binds before (renamed "self" called) called before

/-- What an end of a path does behind segments. -/
def effect? (before : Segments) : UseEnd → Option UseLeaf
  | name w =>
    if w = "self" then before.getLast?.map (UseLeaf.binds · before)
    else some (.binds w (before ++ [w]))
  | renamed w called => some (.binds called (if w = "self" then before else before ++ [w]))
  | glob => some (.glob before)

def isGlob : UseEnd → Bool
  | glob => true
  | _ => false

theorem isGlob_iff {e : UseEnd} : e.isGlob = true ↔ e = glob := by
  cases e with
  | glob => exact ⟨fun _ => rfl, fun _ => rfl⟩
  | _ => exact ⟨nofun, nofun⟩

theorem effect?_eq_binds_iff {before path : Segments} {e : UseEnd} {name : String} :
    e.effect? before = some (.binds name path) ↔ e.Binds before name path := by
  constructor
  · intro h
    cases e with
    | name w =>
      rw [effect?] at h
      split at h
      · next hself =>
        obtain ⟨last, hlast, heq⟩ := Option.map_eq_some_iff.1 h
        cases heq
        rw [hself]
        exact .self hlast
      · next hself =>
        cases h
        exact .name hself
    | renamed w called =>
      rw [effect?] at h
      split at h
      · next hself =>
        cases h
        rw [hself]
        exact .renamedSelf
      · next hself =>
        cases h
        exact .renamed hself
    | glob => cases h
  · intro h
    cases h with
    | name hself => rw [effect?, if_neg hself]
    | self hlast => rw [effect?, if_pos rfl, hlast, Option.map_some]
    | renamed hself => rw [effect?, if_neg hself]
    | renamedSelf => rw [effect?, if_pos rfl]

/-- A scope takes from the end of a path what it does. -/
theorem Shapes.ofTreeFuel {e : UseEnd} {t : Tree} (h : e.Shapes t) (fuel : Nat)
    (before : Segments) : UseLeaf.ofTreeFuel (fuel + 1) before t = (e.effect? before).toList := by
  cases e with
  | name w =>
    obtain ⟨pos, rfl⟩ := h
    show (if w = "self" then _ else _) = _
    rw [effect?]
    split
    · cases before.getLast? with
      | none => rfl
      | some last => rfl
    · rfl
  | renamed w called =>
    obtain ⟨pos, as', pos', rfl⟩ := h
    rfl
  | glob =>
    obtain ⟨parts, rfl⟩ := h
    rfl

end UseEnd

/-! ## Leaves of trees -/

namespace UseTree

/-- A leaf stands in a tree at a place, behind segments. A place counts the members of the groups
on the way, so the leaf with the greater place stands later. -/
inductive Leaf : UseTree → (place : List Nat) → (before : Segments) → UseEnd → Prop
  | leaf (e : UseEnd) : Leaf (leaf e) [] [] e
  | path (w : String) {rest : UseTree} {place : List Nat} {before : Segments} {e : UseEnd} :
      Leaf rest place before e → Leaf (path w rest) place (w :: before) e
  | group {us : List UseTree} {i : Nat} {u : UseTree} {place : List Nat} {before : Segments}
      {e : UseEnd} : us[i]? = some u → Leaf u place before e → Leaf (group us) (i :: place) before e

/-- At a place in a list of use declarations stands a leaf that binds a name to a path. -/
def BindsAt (uses : List UseTree) (place : List Nat) (name : String) (path : Segments) : Prop :=
  ∃ before e, (group uses).Leaf place before e ∧ e.Binds before name path

/-- A leaf with its place and the segments in front of it. -/
structure Occurrence where
  place : List Nat
  before : Segments
  leaf : UseEnd

mutual

/-- The leaves of a tree, in order. -/
def leaves : UseTree → List Occurrence
  | leaf e => [⟨[], [], e⟩]
  | path w rest => rest.leaves.map fun o => { o with before := w :: o.before }
  | group us => leavesFrom 0 us

/-- The leaves of the members of a group, of which the first is the `i`th. -/
def leavesFrom (i : Nat) : List UseTree → List Occurrence
  | [] => []
  | u :: us => (u.leaves.map fun o => { o with place := i :: o.place }) ++ leavesFrom (i + 1) us

end

mutual

theorem mem_leaves : ∀ {u : UseTree} {place : List Nat} {before : Segments} {e : UseEnd},
    ⟨place, before, e⟩ ∈ u.leaves ↔ u.Leaf place before e
  | leaf e', place, before, e => by
    rw [leaves, List.mem_singleton]
    constructor
    · intro h
      cases h
      exact .leaf e'
    · intro h
      cases h
      rfl
  | path w rest, place, before, e => by
    rw [leaves, List.mem_map]
    constructor
    · rintro ⟨o, ho, h⟩
      cases h
      exact .path w (mem_leaves.1 ho)
    · intro h
      cases h with
      | path _ hrest => exact ⟨_, mem_leaves.2 hrest, rfl⟩
  | group us, place, before, e => by
    rw [leaves, mem_leavesFrom]
    constructor
    · rintro ⟨j, u, inner, hu, rfl, hleaf⟩
      rw [Nat.zero_add]
      exact .group hu hleaf
    · intro h
      cases h with
      | group hu hleaf => exact ⟨_, _, _, hu, by rw [Nat.zero_add], hleaf⟩

theorem mem_leavesFrom : ∀ {us : List UseTree} {i : Nat} {place : List Nat} {before : Segments}
    {e : UseEnd}, ⟨place, before, e⟩ ∈ leavesFrom i us ↔
      ∃ j u inner, us[j]? = some u ∧ place = (i + j) :: inner ∧ u.Leaf inner before e
  | [], i, place, before, e => by simp [leavesFrom]
  | u :: us, i, place, before, e => by
    rw [leavesFrom, List.mem_append, List.mem_map]
    constructor
    · rintro (⟨o, ho, h⟩ | hrest)
      · cases h
        exact ⟨0, u, o.place, rfl, rfl, mem_leaves.1 ho⟩
      · obtain ⟨j, v, inner, hv, rfl, hleaf⟩ := mem_leavesFrom.1 hrest
        exact ⟨j + 1, v, inner, hv, by rw [Nat.add_right_comm, Nat.add_assoc], hleaf⟩
    · rintro ⟨j, v, inner, hv, rfl, hleaf⟩
      cases j with
      | zero =>
        cases hv
        exact .inl ⟨_, mem_leaves.2 hleaf, rfl⟩
      | succ j =>
        refine .inr (mem_leavesFrom.2 ⟨j, v, inner, hv, ?_, hleaf⟩)
        rw [Nat.add_right_comm, Nat.add_assoc]

end

mutual

theorem pairwise_leaves : ∀ u : UseTree, u.leaves.Pairwise fun o o' => o.place < o'.place
  | leaf _ => List.pairwise_singleton _ _
  | path _ rest => List.pairwise_map.2 (pairwise_leaves rest)
  | group us => pairwise_leavesFrom 0 us

theorem pairwise_leavesFrom : ∀ (i : Nat) (us : List UseTree),
    (leavesFrom i us).Pairwise fun o o' => o.place < o'.place
  | i, [] => .nil
  | i, u :: us => by
    rw [leavesFrom, List.pairwise_append]
    refine ⟨?_, pairwise_leavesFrom (i + 1) us, fun o ho o' ho' => ?_⟩
    · refine List.pairwise_map.2 ((pairwise_leaves u).imp fun hlt => ?_)
      exact List.cons_lt_cons_iff.2 (.inr ⟨rfl, hlt⟩)
    -- the places of later members start with larger numbers
    · obtain ⟨first, -, rfl⟩ := List.mem_map.1 ho
      obtain ⟨place, before, e⟩ := o'
      obtain ⟨j, v, inner, -, rfl, -⟩ := mem_leavesFrom.1 ho'
      exact List.cons_lt_cons_iff.2 (.inl (by omega))

end

/-- What the leaves of a tree do behind segments. -/
def effects (before : Segments) (os : List Occurrence) : List UseLeaf :=
  os.filterMap fun o => o.leaf.effect? (before ++ o.before)

theorem effects_leaf (before : Segments) (e : UseEnd) :
    effects before (leaf e).leaves = (e.effect? before).toList := by
  rw [leaves, effects, List.filterMap_cons, List.append_nil]
  cases e.effect? before with
  | none => rfl
  | some l => rfl

theorem effects_path (before : Segments) (w : String) (rest : UseTree) :
    effects before (path w rest).leaves = effects (before ++ [w]) rest.leaves := by
  rw [leaves, effects, effects, List.filterMap_map]
  refine List.filterMap_congr fun o _ => ?_
  rw [List.append_assoc]
  rfl

theorem effects_cons (before : Segments) (i : Nat) (u : UseTree) (us : List UseTree) :
    effects before (leavesFrom i (u :: us))
      = effects before u.leaves ++ effects before (leavesFrom (i + 1) us) := by
  rw [leavesFrom, effects, List.filterMap_append, List.filterMap_map]
  rfl

mutual

/-- A scope takes from a tree what its leaves do. -/
theorem Shapes.ofTreeFuel : ∀ {u : UseTree} {t : Tree} {fuel : Nat} {before : Segments},
    u.Shapes t → Token.count t.tokens < fuel →
      UseLeaf.ofTreeFuel fuel before t = effects before u.leaves
  | leaf e, t, fuel + 1, before, h, _ => by
    rw [Shapes] at h
    rw [effects_leaf]
    exact h.ofTreeFuel fuel before
  | path w rest, t, fuel + 1, before, h, hfuel => by
    rw [Shapes] at h
    obtain ⟨pos, sep, inner, rfl, hinner⟩ := h
    have hfewer : Token.count inner.tokens < fuel := by
      simp only [Tree.tokens, Tree.tokensAll, Token.count_append, Token.count, Token.size] at hfuel
      omega
    rw [effects_path, ← Shapes.ofTreeFuel hinner hfewer]
    rfl
  | group us, t, fuel + 1, before, h, hfuel => by
    rw [Shapes] at h
    obtain ⟨d, body, pos, close, rfl, hall⟩ := h
    have hfewer : ∀ t ∈ Tree.members body, Token.count t.tokens < fuel := by
      intro t ht
      have hle := Tree.count_le_of_mem (Tree.mem_of_mem_members ht)
      simp only [Tree.tokens, Tree.tokensAll, Token.count_append, Token.count, Token.size] at hfuel
      omega
    rw [leaves, ← ShapesAll.ofTreeFuel 0 hall hfewer]
    rfl

theorem ShapesAll.ofTreeFuel : ∀ {us : List UseTree} {ts : List Tree} {fuel : Nat}
    {before : Segments} (i : Nat), ShapesAll us ts → (∀ t ∈ ts, Token.count t.tokens < fuel) →
      ts.flatMap (UseLeaf.ofTreeFuel fuel before) = effects before (leavesFrom i us)
  | [], ts, fuel, before, i, h, _ => by
    rw [ShapesAll] at h
    rw [h]
    rfl
  | u :: us, ts, fuel, before, i, h, hfuel => by
    rw [ShapesAll] at h
    obtain ⟨t, more, rfl, ht, hmore⟩ := h
    obtain ⟨hfirst, hrest⟩ := List.forall_mem_cons.1 hfuel
    rw [List.flatMap_cons, effects_cons, Shapes.ofTreeFuel ht hfirst,
      ShapesAll.ofTreeFuel (i + 1) hmore hrest]

end

end UseTree

end Source

/-! ## Scopes -/

namespace Scope

open UseTree (BindsAt Occurrence effects leavesFrom)

/-- What use declarations bring into a scope: a name stands for the path of the last leaf that binds
it, and the members of modules come in the order of the leaves that say so. -/
structure Flattens (s : Scope) (uses : List UseTree) : Prop where
  bound : ∀ name path, s.alias? name = some path ↔ ∃ place, BindsAt uses place name path ∧
    ∀ place' path', BindsAt uses place' name path' → ¬place < place'
  unbound : ∀ name, s.alias? name = none ↔ ∀ place path, ¬ BindsAt uses place name path
  globs : ∃ places, places.Pairwise (· < ·) ∧
    List.Forall₂ (fun place path => (UseTree.group uses).Leaf place path .glob) places s.globs ∧
    ∀ place path, (UseTree.group uses).Leaf place path .glob → place ∈ places

/-- A scope takes from items what the leaves of the use declarations among them do. -/
theorem leaves_ofItems (module : Segments) {items : List Tree} {uses : List UseTree}
    (h : Uses items uses) (i : Nat) :
    (ofItems module items).leaves = effects [] (leavesFrom i uses) := by
  induction h generalizing i with
  | nil => rfl
  | @use attrs vis word lead tree semi items u uses htree _ ih =>
    have hone : UseLeaf.ofTree tree = effects [] u.leaves := htree.ofTreeFuel (Nat.lt_succ_self _)
    rw [UseTree.effects_cons, ← hone, ← ih (i + 1)]
    rfl
  | @other item items uses hno _ ih =>
    have hnone : (ofItems module [item]).leaves = [] := by
      rw [ofItems, List.flatMap_singleton]
      split
      · cases hno
      · rfl
    rw [← ih i, ← List.nil_append (ofItems module items).leaves, ← hnone, ofItems, ofItems, ofItems,
      ← List.flatMap_append]
    rfl

/-- The path that one leaf binds a name to. -/
def bound? (name : String) : UseLeaf → Option Segments
  | .binds n path => if n = name then some path else none
  | .glob _ => none

theorem bound?_eq_some_iff {name : String} {l : UseLeaf} {path : Segments} :
    bound? name l = some path ↔ l = .binds name path := by
  cases l with
  | binds n path' =>
    rw [bound?, UseLeaf.binds.injEq]
    by_cases hn : n = name
    · rw [if_pos hn, Option.some.injEq, and_iff_right hn]
    · rw [if_neg hn]
      exact ⟨nofun, fun h => absurd h.1 hn⟩
  | glob path' => exact ⟨nofun, nofun⟩

/-- The path that an occurrence of a leaf binds a name to. -/
def binding? (name : String) (o : Occurrence) : Option Segments :=
  (o.leaf.effect? o.before).bind (bound? name)

theorem binding?_eq_some_iff {name : String} {o : Occurrence} {path : Segments} :
    binding? name o = some path ↔ o.leaf.Binds o.before name path := by
  rw [binding?, Option.bind_eq_some_iff]
  constructor
  · rintro ⟨l, hl, hbound⟩
    rw [bound?_eq_some_iff.1 hbound] at hl
    exact UseEnd.effect?_eq_binds_iff.1 hl
  · intro h
    exact ⟨_, UseEnd.effect?_eq_binds_iff.2 h, bound?_eq_some_iff.2 rfl⟩

/-- Where a leaf binds a name, a leaf among all leaves does. -/
theorem bindsAt_iff {uses : List UseTree} {place : List Nat} {name : String} {path : Segments} :
    BindsAt uses place name path ↔
      ∃ o ∈ (UseTree.group uses).leaves, o.place = place ∧ binding? name o = some path := by
  constructor
  · rintro ⟨before, e, hleaf, hbinds⟩
    exact ⟨⟨place, before, e⟩, UseTree.mem_leaves.2 hleaf, rfl, binding?_eq_some_iff.2 hbinds⟩
  · rintro ⟨o, ho, rfl, hbound⟩
    exact ⟨o.before, o.leaf, UseTree.mem_leaves.1 ho, binding?_eq_some_iff.1 hbound⟩

/-- The last of sorted leaves that gives something is found. -/
theorem findSome?_reverse_eq_some_iff {α : Type} {f : Occurrence → Option α} {os : List Occurrence}
    (hsorted : os.Pairwise fun o o' => o.place < o'.place) {a : α} :
    os.reverse.findSome? f = some a ↔
      ∃ o ∈ os, f o = some a ∧ ∀ o' ∈ os, f o' ≠ none → ¬o.place < o'.place := by
  rw [List.findSome?_eq_some_iff]
  constructor
  · rintro ⟨after, o, before, hsplit, ho, hafter⟩
    have hos : os = before.reverse ++ o :: after.reverse := by
      rw [← List.reverse_reverse os, hsplit]
      simp
    subst hos
    refine ⟨o, List.mem_append_right _ List.mem_cons_self, ho, fun o' ho' hsome => ?_⟩
    have hlater := (List.pairwise_append.1 hsorted).2.2
    rcases List.mem_append.1 ho' with hbefore | hrest
    · exact List.lt_asymm (hlater o' hbefore o List.mem_cons_self)
    · rcases List.mem_cons.1 hrest with rfl | hmem
      · exact List.lt_irrefl _
      · exact absurd (hafter o' (List.mem_reverse.1 hmem)) hsome
  · rintro ⟨o, ho, hf, hlast⟩
    obtain ⟨before, after, rfl⟩ := List.append_of_mem ho
    refine ⟨after.reverse, o, before.reverse, by simp, hf, fun o' ho' => ?_⟩
    by_contra hsome
    have hmem : o' ∈ after := List.mem_reverse.1 ho'
    have hnot := hlast o' (List.mem_append_right _ (List.mem_cons_of_mem _ hmem)) hsome
    exact hnot (List.rel_of_pairwise_cons (List.pairwise_append.1 hsorted).2.1 hmem)

section

variable {s : Scope} {uses : List UseTree}
  (hleaves : s.leaves = effects [] (UseTree.group uses).leaves)
include hleaves

theorem alias?_eq (name : String) :
    s.alias? name = (UseTree.group uses).leaves.reverse.findSome? (binding? name) := by
  show s.leaves.reverse.findSome? (bound? name) = _
  rw [← List.getLast?_filterMap, hleaves, effects, List.filterMap_filterMap,
    List.getLast?_filterMap]
  rfl

/-- The last leaf that binds a name is the one that a scope answers with. -/
theorem alias?_eq_some_iff {name : String} {path : Segments} : s.alias? name = some path ↔
      ∃ place, BindsAt uses place name path ∧
        ∀ place' path', BindsAt uses place' name path' → ¬place < place' := by
  rw [alias?_eq hleaves, findSome?_reverse_eq_some_iff (UseTree.pairwise_leaves _)]
  constructor
  · rintro ⟨o, ho, hbound, hlast⟩
    refine ⟨o.place, bindsAt_iff.2 ⟨o, ho, rfl, hbound⟩, fun place' path' hbinds => ?_⟩
    obtain ⟨o', ho', rfl, hbound'⟩ := bindsAt_iff.1 hbinds
    exact hlast o' ho' (Option.ne_none_iff_exists'.2 ⟨path', hbound'⟩)
  · rintro ⟨place, hbinds, hlast⟩
    obtain ⟨o, ho, rfl, hbound⟩ := bindsAt_iff.1 hbinds
    refine ⟨o, ho, hbound, fun o' ho' hsome => ?_⟩
    obtain ⟨path', hbound'⟩ := Option.ne_none_iff_exists'.1 hsome
    exact hlast o'.place path' (bindsAt_iff.2 ⟨o', ho', rfl, hbound'⟩)

theorem alias?_eq_none_iff {name : String} :
    s.alias? name = none ↔ ∀ place path, ¬ BindsAt uses place name path := by
  rw [alias?_eq hleaves, List.findSome?_eq_none_iff]
  constructor
  · intro h place path hbinds
    obtain ⟨o, ho, -, hbound⟩ := bindsAt_iff.1 hbinds
    rw [h o (List.mem_reverse.2 ho)] at hbound
    cases hbound
  · intro h o ho
    rw [Option.eq_none_iff_forall_ne_some]
    intro path hbound
    exact h o.place path (bindsAt_iff.2 ⟨o, List.mem_reverse.1 ho, rfl, hbound⟩)

/-- The globs of a scope are the segments in front of the leaves that say so. -/
theorem globs_eq : s.globs =
    ((UseTree.group uses).leaves.filter fun o => o.leaf.isGlob).map Occurrence.before := by
  rw [globs, hleaves, effects, List.filterMap_filterMap, ← List.filterMap_eq_map,
    List.filterMap_filter]
  refine List.filterMap_congr fun o _ => ?_
  obtain ⟨place, before, e⟩ := o
  cases e with
  | name w =>
    show ((UseEnd.name w).effect? before).bind _ = none
    rw [UseEnd.effect?]
    split
    · cases before.getLast? with
      | none => rfl
      | some last => rfl
    · rfl
  | renamed w called => rfl
  | glob => rfl

/-- The leaves that bring all members of a module into scope stand at places in order. -/
theorem exists_glob_places :
    ∃ places, places.Pairwise (· < ·) ∧
      List.Forall₂ (fun place path => (UseTree.group uses).Leaf place path .glob) places s.globs ∧
      ∀ place path, (UseTree.group uses).Leaf place path .glob → place ∈ places := by
  rw [globs_eq hleaves]
  have hsorted := UseTree.pairwise_leaves (.group uses)
  refine ⟨((UseTree.group uses).leaves.filter fun o => o.leaf.isGlob).map Occurrence.place,
    List.pairwise_map.2 (hsorted.filter _), ?_, fun place path hleaf => ?_⟩
  · rw [List.forall₂_map_left_iff, List.forall₂_map_right_iff, List.forall₂_same]
    intro o ho
    obtain ⟨hmem, hglob⟩ := List.mem_filter.1 ho
    rw [← UseEnd.isGlob_iff.1 hglob]
    exact UseTree.mem_leaves.1 hmem
  · exact List.mem_map.2 ⟨⟨place, path, .glob⟩,
      List.mem_filter.2 ⟨UseTree.mem_leaves.2 hleaf, rfl⟩, rfl⟩

end

theorem flattens_ofItems (module : Segments) {items : List Tree} {uses : List UseTree}
    (h : Uses items uses) : (ofItems module items).Flattens uses := by
  have hleaves : (ofItems module items).leaves = effects [] (UseTree.group uses).leaves :=
    leaves_ofItems module h 0
  exact ⟨fun _ _ => alias?_eq_some_iff hleaves, fun _ => alias?_eq_none_iff hleaves,
    exists_glob_places hleaves⟩

/-- The items of a module bring into scope what the leaves of their use declarations say, the last
one where several bind a name. The use declarations of a source file, and of the modules in it, all
have use trees. -/
theorem ofItems_flattens :
    (∀ (module : Segments) (items : List Tree) (uses : List UseTree), Uses items uses →
      (ofItems module items).Flattens uses) ∧
    ∀ (text : String) (trees items : List Tree), readFile text = .ok trees →
      Tree.ItemsWithin (trees.drop 1) items → ∃ uses, Uses items uses :=
  ⟨fun module _ _ h => flattens_ofItems module h, fun _ _ _ h hitems => exists_uses h hitems⟩

/-- `self` in a group, a name that is bound twice, and all names of a module. -/
def radioUses : String :=
  "use radio::\x7bself, dial::\x7bTuner as Dial, *\x7d\x7d;\nuse tuner::Dial;"

theorem ofItems_flattens_radio :
    ∃ trees uses, readFile radioUses = .ok trees ∧ Uses (trees.drop 1) uses ∧
      (ofItems ["app"] (trees.drop 1)).Flattens uses ∧
      (ofItems ["app"] (trees.drop 1)).alias? "radio" = some ["radio"] ∧
      (ofItems ["app"] (trees.drop 1)).alias? "Dial" = some ["tuner", "Dial"] ∧
      (ofItems ["app"] (trees.drop 1)).globs = [["radio", "dial"]] := by
  have hrun : ((readFile radioUses).map fun trees =>
        let s := ofItems ["app"] (trees.drop 1)
        (s.alias? "radio", s.alias? "Dial", s.globs)) =
      .ok (some ["radio"], some ["tuner", "Dial"], [["radio", "dial"]]) := by decide +kernel
  obtain ⟨trees, hread, hnames⟩ := map_eq_ok.1 hrun
  obtain ⟨hradio, hrest⟩ := Prod.mk.inj hnames
  obtain ⟨hdial, hglobs⟩ := Prod.mk.inj hrest
  obtain ⟨hflattens, hread'⟩ := ofItems_flattens
  obtain ⟨uses, huses⟩ := hread' _ _ _ hread .here
  exact ⟨trees, uses, hread, huses, hflattens ["app"] _ _ huses, hradio, hdial, hglobs⟩

end Scope

end TypedSettings
