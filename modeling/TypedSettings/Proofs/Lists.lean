import Mathlib.Data.List.Forall2
import Mathlib.Data.List.Nodup

/-!
Traversals that may fail, lists that are put together from groups, and lists that are searched.

* `mapM_eq_ok_iff`: a traversal gives a result for every element, or fails.
* `exists_mapM_eq_ok_iff`: a traversal succeeds where it does so at every element.
* `exists_groups`: what stands for a list of groups falls into groups.
* `forall₂_filter_flatten`: groups with keys of their own are found again by their keys.
* `find?_key_eq_some_iff`: where no two elements have one key, an element is found by its key.
* `findSome?_perm`: where no two elements have results, the order does not matter.
-/

namespace TypedSettings

/-! ## Traversals -/

theorem bind_eq_ok {α β ε : Type} {x : Except ε α} {f : α → Except ε β} {b : β} :
    x >>= f = .ok b ↔ ∃ a, x = .ok a ∧ f a = .ok b := by
  cases x with
  | error e => simp [bind, Except.bind]
  | ok a => simp [bind, Except.bind]

theorem map_eq_ok {α β ε : Type} {x : Except ε α} {f : α → β} {b : β} :
    x.map f = .ok b ↔ ∃ a, x = .ok a ∧ f a = b := by
  cases x with
  | error e => simp [Except.map]
  | ok a => simp [Except.map]

theorem exists_of_isOk {α ε : Type} {x : Except ε α} (h : x.isOk = true) : ∃ a, x = .ok a := by
  cases x with
  | error e => cases h
  | ok a => exact ⟨a, rfl⟩

/-- What an attempt failed with. -/
def faultOf {α ε : Type} : Except ε α → Option ε
  | .ok _ => none
  | .error e => some e

theorem faultOf_eq_some_iff {α ε : Type} {x : Except ε α} {e : ε} :
    faultOf x = some e ↔ x = .error e := by
  cases x <;> simp [faultOf]

theorem faultOf_eq_none_iff {α ε : Type} {x : Except ε α} :
    faultOf x = none ↔ ∃ a, x = .ok a := by
  cases x <;> simp [faultOf]

/-- A sequence fails where its first part does, and then where its second part does. -/
theorem faultOf_bind {α β ε : Type} {x : Except ε α} {f : α → Except ε β} {o : Option ε}
    (h : ∀ a, faultOf (f a) = o) : faultOf (x >>= f) = (faultOf x).or o := by
  cases x with
  | error e => rfl
  | ok a => exact h a

theorem faultOf_bind_pure {α β ε : Type} {x : Except ε α} {f : α → β} :
    faultOf (x >>= fun a => pure (f a)) = faultOf x := by
  cases x <;> rfl

/-- A traversal fails at the first element at which it does. -/
theorem faultOf_mapM {α β ε : Type} {f : α → Except ε β} {as : List α} :
    faultOf (as.mapM f) = as.findSome? fun a => faultOf (f a) := by
  induction as with
  | nil => rfl
  | cons a as ih =>
    have hrest : ∀ b, faultOf (as.mapM f >>= fun bs => pure (b :: bs))
        = as.findSome? fun a => faultOf (f a) := fun b => by rw [faultOf_bind_pure, ih]
    rw [List.mapM_cons, faultOf_bind hrest, List.findSome?_cons]
    cases faultOf (f a) <;> rfl

/-- A traversal that succeeds gives one result for each element, in order. -/
theorem mapM_eq_ok_iff {α β ε : Type} {f : α → Except ε β} {as : List α} {bs : List β} :
    as.mapM f = .ok bs ↔ List.Forall₂ (fun a b => f a = .ok b) as bs := by
  induction as generalizing bs with
  | nil => simp [pure, Except.pure, eq_comm]
  | cons a as ih =>
    rw [List.mapM_cons, List.forall₂_cons_left_iff, bind_eq_ok]
    constructor
    · rintro ⟨b, hb, h⟩
      obtain ⟨rest, hrest, h⟩ := bind_eq_ok.1 h
      cases h
      exact ⟨b, rest, hb, ih.1 hrest, rfl⟩
    · rintro ⟨b, rest, hb, hrest, rfl⟩
      exact ⟨b, hb, bind_eq_ok.2 ⟨rest, ih.2 hrest, rfl⟩⟩

/-- A traversal succeeds with results of a kind where every element has such a result. -/
theorem exists_mapM_eq_ok_iff {α β ε : Type} {f : α → Except ε β} {Q : β → Prop} {as : List α} :
    (∃ bs, as.mapM f = .ok bs ∧ ∀ b ∈ bs, Q b) ↔ ∀ a ∈ as, ∃ b, f a = .ok b ∧ Q b := by
  induction as with
  | nil => exact iff_of_true ⟨[], rfl, by simp⟩ (by simp)
  | cons a as ih =>
    rw [List.forall_mem_cons, ← ih]
    constructor
    · rintro ⟨bs, hbs, hQ⟩
      obtain ⟨b, rest, hb, hrest, rfl⟩ := List.forall₂_cons_left_iff.1 (mapM_eq_ok_iff.1 hbs)
      obtain ⟨hQb, hQrest⟩ := List.forall_mem_cons.1 hQ
      exact ⟨⟨b, hb, hQb⟩, rest, mapM_eq_ok_iff.2 hrest, hQrest⟩
    · rintro ⟨⟨b, hb, hQb⟩, rest, hrest, hQrest⟩
      exact ⟨b :: rest, mapM_eq_ok_iff.2 (.cons hb (mapM_eq_ok_iff.1 hrest)),
        List.forall_mem_cons.2 ⟨hQb, hQrest⟩⟩

theorem map_eq_map_of_forall₂ {α β γ : Type} {f : α → γ} {g : β → γ} {as : List α} {bs : List β}
    (h : List.Forall₂ (fun a b => f a = g b) as bs) : as.map f = bs.map g := by
  induction h with
  | nil => rfl
  | cons hab _ ih => rw [List.map_cons, List.map_cons, hab, ih]

theorem exists_of_forall₂ {α β : Type} {R : α → β → Prop} {as : List α} {bs : List β}
    (h : List.Forall₂ R as bs) {a : α} (ha : a ∈ as) : ∃ b ∈ bs, R a b := by
  induction h with
  | nil => cases ha
  | cons hab _ ih =>
    rcases List.mem_cons.1 ha with rfl | ha
    · exact ⟨_, List.mem_cons_self, hab⟩
    · obtain ⟨b, hb, hR⟩ := ih ha
      exact ⟨b, List.mem_cons_of_mem _ hb, hR⟩

/-- Two lists that stand for one list stand for each other. -/
theorem forall₂_of_common {α β γ : Type} {R : α → β → Prop} {S : α → γ → Prop} {T : β → γ → Prop}
    {as : List α} {bs : List β} {cs : List γ} (hR : List.Forall₂ R as bs)
    (hS : List.Forall₂ S as cs) (h : ∀ a b c, R a b → S a c → T b c) : List.Forall₂ T bs cs := by
  induction hR generalizing cs with
  | nil =>
    cases hS
    exact .nil
  | cons hab _ ih =>
    cases hS with
    | cons hac hS => exact .cons (h _ _ _ hab hac) (ih hS)

/-! ## Groups -/

/-- What stands for a list of groups, element by element, falls into groups. -/
theorem exists_groups {α β γ : Type} {R : β → γ → Prop} (f : α → List β) {as : List α}
    {cs : List γ} (h : List.Forall₂ R (as.flatMap f) cs) :
    ∃ groups, cs = groups.flatten ∧ List.Forall₂ (fun a g => List.Forall₂ R (f a) g) as groups := by
  induction as generalizing cs with
  | nil =>
    cases h
    exact ⟨[], rfl, .nil⟩
  | cons a as ih =>
    rw [List.flatMap_cons] at h
    have hfirst := List.forall₂_take_append _ _ _ h.flip
    have hrest := List.forall₂_drop_append _ _ _ h.flip
    obtain ⟨groups, hcs, hgroups⟩ := ih hrest.flip
    refine ⟨cs.take (f a).length :: groups, ?_, .cons hfirst.flip hgroups⟩
    rw [List.flatten_cons, ← hcs, List.take_append_drop]

theorem key_mem_of_mem_flatten {α : Type} {key : α → String} {names : List String}
    {groups : List (List α)} (hkey : List.Forall₂ (fun n g => ∀ a ∈ g, key a = n) names groups)
    {a : α} (ha : a ∈ groups.flatten) : key a ∈ names := by
  induction hkey with
  | nil => cases ha
  | cons hg _ ih =>
    rcases List.mem_append.1 ha with ha | ha
    · rw [hg a ha]
      exact List.mem_cons_self
    · exact List.mem_cons_of_mem _ (ih ha)

/-- Groups whose elements have the key of their group, no two groups with one key, are found again
by their keys. -/
theorem forall₂_filter_flatten {α : Type} {key : α → String} {names : List String}
    {groups : List (List α)} (hkey : List.Forall₂ (fun n g => ∀ a ∈ g, key a = n) names groups)
    (hnames : names.Nodup) :
    List.Forall₂ (fun n g => (groups.flatten.filter fun a => key a == n) = g) names groups := by
  induction hkey with
  | nil => exact .nil
  | @cons n g names groups hg hrest ih =>
    obtain ⟨hn, hnames⟩ := List.nodup_cons.1 hnames
    have hown : (g.filter fun a => key a == n) = g := by
      rw [List.filter_eq_self]
      intro a ha
      exact beq_iff_eq.2 (hg a ha)
    have hothers : (groups.flatten.filter fun a => key a == n) = [] := by
      rw [List.filter_eq_nil_iff]
      intro a ha hk
      exact hn (beq_iff_eq.1 hk ▸ key_mem_of_mem_flatten hrest ha)
    refine .cons ?_ ?_
    · rw [List.flatten_cons, List.filter_append, hown, hothers, List.append_nil]
    · refine List.Forall₂.imp ?_ ((List.forall₂_and_left _ _).2 ⟨fun _ hn => hn, ih hnames⟩)
      rintro n' g' ⟨hn', heq⟩
      have hnone : (g.filter fun a => key a == n') = [] := by
        rw [List.filter_eq_nil_iff]
        intro a ha hk
        rw [hg a ha] at hk
        exact hn (beq_iff_eq.1 hk ▸ hn')
      rw [List.flatten_cons, List.filter_append, hnone, List.nil_append, heq]

/-! ## Searches -/

/-- In a list of which no two elements have one key, an element is found by its key. -/
theorem find?_key_eq_some_iff {α : Type} {key : α → String} {as : List α}
    (h : (as.map key).Nodup) {k : String} {a : α} :
    as.find? (fun x => key x == k) = some a ↔ a ∈ as ∧ key a = k := by
  constructor
  · intro hfind
    exact ⟨List.mem_of_find?_eq_some hfind, by simpa using List.find?_some hfind⟩
  · rintro ⟨ha, rfl⟩
    obtain ⟨b, hb⟩ : ∃ b, as.find? (fun x => key x == key a) = some b :=
      Option.isSome_iff_exists.1 (List.find?_isSome.2 ⟨a, ha, beq_self_eq_true _⟩)
    have hkey : key b = key a := by simpa using List.find?_some hb
    rw [hb, List.inj_on_of_nodup_map h (List.mem_of_find?_eq_some hb) ha hkey]

theorem findSome?_congr {α β : Type} {f g : α → Option β} {as : List α}
    (h : ∀ a ∈ as, f a = g a) : as.findSome? f = as.findSome? g := by
  induction as with
  | nil => rfl
  | cons a as ih =>
    rw [List.findSome?_cons, List.findSome?_cons, h a List.mem_cons_self,
      ih fun b hb => h b (List.mem_cons_of_mem _ hb)]

/-- The first result is the same in every order of a list of which no two elements have results. -/
theorem findSome?_perm {α β : Type} {f : α → Option β} {as bs : List α} (hp : as.Perm bs)
    (h : as.Pairwise fun a b => f a = none ∨ f b = none) : as.findSome? f = bs.findSome? f := by
  induction hp with
  | nil => rfl
  | cons a _ ih =>
    rw [List.findSome?_cons, List.findSome?_cons, ih (List.pairwise_cons.1 h).2]
  | swap a b as =>
    have hab : f b = none ∨ f a = none := (List.pairwise_cons.1 h).1 a List.mem_cons_self
    simp only [List.findSome?_cons]
    rcases hab with hb | ha
    · rw [hb]
    · rw [ha]
  | trans hab _ ih ih' => rw [ih h, ih' ((hab.pairwise_iff fun h => Or.symm h).1 h)]

/-- Elements that give nothing may be left out. -/
theorem flatMap_filter_eq {α β : Type} {f : α → List β} {p : α → Bool} {as : List α}
    (h : ∀ a ∈ as, p a = false → f a = []) : (as.filter p).flatMap f = as.flatMap f := by
  induction as with
  | nil => rfl
  | cons a as ih =>
    rw [List.forall_mem_cons] at h
    rw [List.flatMap_cons, ← ih h.2]
    cases hp : p a with
    | false => rw [List.filter_cons_of_neg (by simp [hp]), h.1 hp, List.nil_append]
    | true => rw [List.filter_cons_of_pos hp, List.flatMap_cons]

end TypedSettings
