import TypedSettings.Layout.Items

/-!
The layout of syntax trees as source text. Each form is set to a depth: every time a layout turns
to a part of its tree, the depth goes down by one, and a part is at least a level below its tree.
-/

namespace TypedSettings.Layout

open Source

/-- The layout of a form, given a layout for every form. -/
def ofForm (sub : Layouts) : Form → Tree → List Doc
  | .path place => path sub place
  | .type => type sub
  | .bound => bound sub
  | .pattern => pattern sub
  | .expr => expr sub
  | .lineStart => lineStart sub
  | .chain start => chain sub start
  | .otherwise => otherwise sub
  | .statement => statement sub
  | .item => item sub

/-- Every form, set to a depth. -/
def toDepth : Nat → Layouts
  | 0 => fun _ _ => []
  | depth + 1 => ofForm (toDepth depth)

mutual

/-- How deep the nodes and groups of a tree are nested. -/
def height : Tree → Nat
  | .run _ => 1
  | .group _ body _ _ => heightAll body + 1
  | .node _ parts => heightAll parts + 1

def heightAll : List Tree → Nat
  | [] => 0
  | t :: ts => max (height t) (heightAll ts)

end

/-- The text of a file: inner attributes, and items. There is none when a part that is reached has
no layout. A tree may be turned to in several forms before one of its parts is. -/
def file? (trees : List Tree) : Option String :=
  let sub := toDepth (4 * (heightAll trees + 1))
  match trees with
  | [] => some ""
  | attrs :: items => render? (uniform 0 (attributes sub attrs ++ items.flatMap (sub .item)))

end TypedSettings.Layout
