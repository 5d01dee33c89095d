import TypedSettings.Proofs.Source.Names

/-!
Modules in a source file. A module has a word in front of its items, so its items have fewer tokens
than the module: modules nest no deeper than their tokens.

* `Tree.Headed`: the modules in an item have a word in front of their items.
* `readFile_headed`: the items of a source file are so.
* `Tree.count_inner_lt`: the items of a module have fewer tokens than the module.
-/

namespace TypedSettings

namespace Source

open Token

/-! ## Tokens of parts -/

namespace Tree

theorem count_getElem?_le (ts : List Tree) (i : Nat) :
    count (ts[i]?.getD absent).tokens ≤ count (tokensAll ts) := by
  induction ts generalizing i with
  | nil => exact Nat.zero_le _
  | cons t ts ih =>
    rw [tokensAll, count_append]
    cases i with
    | zero => exact Nat.le_add_right _ _
    | succ i => exact Nat.le_add_left_of_le (ih i)

/-- Two parts of a list have no token in common. -/
theorem count_getElem?_add_le (ts : List Tree) {i j : Nat} (h : i < j) :
    count (ts[i]?.getD absent).tokens + count (ts[j]?.getD absent).tokens
      ≤ count (tokensAll ts) := by
  induction ts generalizing i j with
  | nil => exact Nat.zero_le _
  | cons t ts ih =>
    obtain ⟨j, rfl⟩ : ∃ k, j = k + 1 := ⟨j - 1, by omega⟩
    rw [tokensAll, count_append]
    cases i with
    | zero => exact Nat.add_le_add_left (count_getElem?_le ts j) _
    | succ i => exact Nat.le_add_left_of_le (ih (Nat.lt_of_succ_lt_succ h))

theorem count_parts_le (t : Tree) : count (tokensAll t.parts) ≤ count t.tokens := by
  cases t with
  | run ts => exact Nat.zero_le _
  | node k ps =>
    rw [tokens]
    exact Nat.le_refl _
  | group d body pos close =>
    rw [tokens, count, count, size]
    exact Nat.le_succ _

theorem count_drop_le (ts : List Tree) :
    count (tokensAll (ts.drop 1)) ≤ count (tokensAll ts) := by
  cases ts with
  | nil => exact Nat.le_refl _
  | cons t ts =>
    rw [List.drop_one, List.tail_cons, tokensAll, count_append]
    exact Nat.le_add_left _ _

theorem count_le_of_mem {t : Tree} {ts : List Tree} (h : t ∈ ts) :
    count t.tokens ≤ count (tokensAll ts) := by
  obtain ⟨before, after, rfl⟩ := List.append_of_mem h
  rw [tokensAll_append, tokensAll, count_append, count_append]
  omega

/-! ## Modules -/

/-- The modules in an item have a word in front of their items, at every depth. -/
inductive Headed : Tree → Prop
  | module {t : Tree} : t.isKind .itemMod = true → (t.part 3).tokens ≠ [] →
      (∀ u ∈ (t.part 5).parts.drop 1, Headed u) → Headed t
  | other {t : Tree} : t.isKind .itemMod = false → Headed t

theorem Headed.of_module {t : Tree} (h : Headed t) (hkind : t.kind? = some .itemMod) :
    (t.part 3).tokens ≠ [] ∧ ∀ u ∈ (t.part 5).parts.drop 1, Headed u := by
  cases h with
  | module _ hword hinner => exact ⟨hword, hinner⟩
  | other hother =>
    rw [isKind, hkind] at hother
    exact absurd hother (by decide)

/-- The items of a module have fewer tokens than the module. -/
theorem count_inner_lt {t : Tree} (hword : (t.part 3).tokens ≠ []) :
    count (tokensAll ((t.part 5).parts.drop 1)) < count t.tokens := by
  have hsome : 1 ≤ count (t.part 3).tokens :=
    Nat.le_trans (List.length_pos_iff.2 hword) (length_le_count _)
  have hapart : count (t.part 3).tokens + count (t.part 5).tokens ≤ count (tokensAll t.parts) :=
    count_getElem?_add_le t.parts (by decide)
  have hall := count_parts_le t
  have hbody := count_parts_le (t.part 5)
  have hinner := count_drop_le (t.part 5).parts
  omega

end Tree

/-! ## Reading them -/

namespace Grammar

open TypedSettings.Source.Parser TypedSettings.Source.Tree

variable {P : String → Prop} {rules : Rules}

theorem gives_traitItem (attrs vis guard auto : Tree) :
    Gives (NoneOf [.itemUse, .itemMod]) (traitItem rules attrs vis guard auto) := by
  unfold traitItem
  dsimp only
  repeat' first
    | exact gives_pure (noneOf_node (by decide))
    | refine gives_ite ?_ ?_
    | refine gives_bind fun _ => ?_

theorem yields_headed_toDepth (depth : Nat) :
    Yields (AllWords P) (toDepth depth .item) Headed := by
  induction depth with
  | zero => exact yields_fail
  | succ depth ih =>
    refine yields_orVerbatim (yields_item?_of (fun t ht => .other (ht .itemMod (by decide)))
      (yields_useItem? fun _ => .other rfl) ?_ ?_) fun _ => .other rfl
    · intro attrs vis guard auto
      exact (yields_of_gives (gives_traitItem attrs vis guard auto)).imp fun t ht =>
        .other (ht .itemMod (by decide))
    · intro attrs vis guard
      exact yields_modItem_of ih attrs vis guard fun _ _ _ hword hbody => .module rfl hword hbody

end Grammar

/-- The modules of a source file have a word in front of their items. -/
theorem readFile_headed {text : String} {trees : List Tree} (h : readFile text = .ok trees) :
    ∀ t ∈ trees.drop 1, t.Headed :=
  forall_mem_readFile Grammar.yields_headed_toDepth h

end Source

end TypedSettings
