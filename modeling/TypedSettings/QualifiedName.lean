/-!
Qualified names: segments joined by `::`, such as `crate::app::Settings`. A name is kept as its
text, because two names are the same declaration exactly when their texts agree.
-/

namespace TypedSettings

namespace QualifiedName

/-- The pieces of a text between its separators `::`, found from the left. -/
def splitFrom : List Char → List (List Char)
  | [] => [[]]
  | ':' :: ':' :: rest => [] :: splitFrom rest
  | c :: rest =>
    match splitFrom rest with
    | [] => [[c]]
    | piece :: pieces => (c :: piece) :: pieces

/-- The segments of a name; there is at least one. -/
def segments (name : String) : List String :=
  (splitFrom name.toList).map String.ofList

/-- Joins segments by `::`. -/
def ofSegments (segments : List String) : String := "::".intercalate segments

/-- The characters after the last `::`, given the text backwards. -/
def lastFrom : List Char → List Char
  | [] => []
  | ':' :: ':' :: _ => []
  | c :: rest => c :: lastFrom rest

/-- The last segment, found from the right. -/
def simple (name : String) : String :=
  String.ofList (lastFrom name.toList.reverse).reverse

/-- The module a name lives in: every segment but the last, less the crate root. -/
def modulePath (name : String) : List String :=
  (segments name).dropLast.filter (· ≠ "crate")

theorem splitFrom_ne_nil (cs : List Char) : splitFrom cs ≠ [] := by
  fun_cases splitFrom cs <;> simp

theorem segments_ne_nil (name : String) : segments name ≠ [] := by
  simp [segments, splitFrom_ne_nil]

end QualifiedName

end TypedSettings
