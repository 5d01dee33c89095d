/-!
Sorted lists of texts, each once, in the order of code points. They stand for finite sets.
-/

namespace TypedSettings.Text.Sorted

/-- Adds a text at its place, unless it is there. -/
def insert (s : String) : List String → List String
  | [] => [s]
  | t :: rest =>
    if s = t then t :: rest
    else if s < t then s :: t :: rest
    else t :: insert s rest

/-- The texts of a list, sorted, each once. -/
def ofList (ss : List String) : List String := ss.foldr insert []

theorem mem_insert {a s : String} {l : List String} : a ∈ insert s l ↔ a = s ∨ a ∈ l := by
  induction l with
  | nil => simp [insert]
  | cons t rest ih =>
    unfold insert
    by_cases h : s = t
    · subst h
      simp
    · by_cases h' : s < t
      · simp [h, h']
      · simp only [h, h', if_false, List.mem_cons, ih]
        constructor
        · rintro (h | h | h) <;> simp [h]
        · rintro (h | h | h) <;> simp [h]

@[simp] theorem mem_ofList {a : String} {l : List String} : a ∈ ofList l ↔ a ∈ l := by
  induction l with
  | nil => simp [ofList]
  | cons t rest ih =>
    have : ofList (t :: rest) = insert t (ofList rest) := rfl
    simp [this, mem_insert, ih]

end TypedSettings.Text.Sorted
