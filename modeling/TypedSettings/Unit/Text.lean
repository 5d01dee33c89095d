import TypedSettings.Layout
import TypedSettings.Source.Grammar
import TypedSettings.Unit.Assembly

/-!
The text of a unit: a notice, an empty line, and the unit's code laid out. Code that cannot be read
back is refused, and so is code that has no layout.
-/

namespace TypedSettings

open Source

namespace GeneratedUnit

/-- The first line of every generated file. -/
def notice : String :=
  "// This code was automatically generated by prefs-gen. Do not edit manually."

/-- The text of a unit's file. -/
def text (u : GeneratedUnit) : Except EmitFault String :=
  match readTokens Grammar.file u.tokens with
  | .error _ => .error .invalidUnit
  | .ok trees =>
    match Layout.file? trees with
    | some code => .ok (notice ++ "\n\n" ++ code)
    | none => .error .noLayout

end GeneratedUnit

end TypedSettings
