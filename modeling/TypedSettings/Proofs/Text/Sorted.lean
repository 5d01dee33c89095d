import Mathlib.Data.List.Sort
import Mathlib.Data.String.Basic
import TypedSettings.Text.Sorted

/-!
Sorted lists of texts as finite sets: each set has one list.

* `pairwise_ofList`: the texts of a list come out in order, each once.
* `ofList_eq_ofList_iff`: lists of the same texts have one sorted list, and other lists another.
-/

namespace TypedSettings.Text.Sorted

theorem pairwise_insert {l : List String} (h : l.Pairwise (· < ·)) (s : String) :
    (insert s l).Pairwise (· < ·) := by
  induction l with
  | nil => exact List.pairwise_singleton _ _
  | cons t rest ih =>
    obtain ⟨hfirst, hrest⟩ := List.pairwise_cons.1 h
    unfold insert
    by_cases heq : s = t
    · rw [if_pos heq]
      exact h
    · rw [if_neg heq]
      by_cases hlt : s < t
      · rw [if_pos hlt]
        refine List.pairwise_cons.2 ⟨fun a ha => ?_, h⟩
        rcases List.mem_cons.1 ha with rfl | ha
        · exact hlt
        · exact hlt.trans (hfirst a ha)
      · rw [if_neg hlt]
        refine List.pairwise_cons.2 ⟨fun a ha => ?_, ih hrest⟩
        rcases mem_insert.1 ha with rfl | ha
        · exact lt_of_le_of_ne (not_lt.1 hlt) (Ne.symm heq)
        · exact hfirst a ha

theorem pairwise_ofList (l : List String) : (ofList l).Pairwise (· < ·) := by
  induction l with
  | nil => exact .nil
  | cons t rest ih => exact pairwise_insert ih t

/-- A set has one sorted list. -/
theorem eq_ofList {sorted l : List String} (h : sorted.Pairwise (· < ·))
    (hmem : ∀ s, s ∈ sorted ↔ s ∈ l) : sorted = ofList l :=
  h.eq_of_mem_iff (pairwise_ofList l) fun s => by rw [hmem, mem_ofList]

theorem ofList_eq_ofList_iff {l m : List String} :
    ofList l = ofList m ↔ ∀ s, s ∈ l ↔ s ∈ m := by
  constructor
  · intro h s
    rw [← mem_ofList, h, mem_ofList]
  · intro h
    exact eq_ofList (pairwise_ofList l) fun s => by rw [mem_ofList, h]

theorem ofList_ofList (l : List String) : ofList (ofList l) = ofList l :=
  ofList_eq_ofList_iff.2 fun _ => mem_ofList

end TypedSettings.Text.Sorted
