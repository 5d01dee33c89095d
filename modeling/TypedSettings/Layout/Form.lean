import TypedSettings.Layout.Tokens
import TypedSettings.Source.LiteralValue
import TypedSettings.Source.Tree

/-!
The forms in which trees are set, and the layout of attributes and macro calls. A layout is written
against a layout for every form one level down, and `Layout` ties the levels together.
-/

namespace TypedSettings.Layout

open Source

/-- Where a path stands: in a type, or in an expression, where arguments need a `::`. -/
inductive PathPlace where
  | type
  | expr
deriving DecidableEq, Repr

/-- A form in which a tree is set. -/
inductive Form where
  | path (place : PathPlace)
  | type
  | bound
  | pattern
  | expr
  /-- an expression that starts a line -/
  | lineStart
  /-- the beginning of a chain of fields, calls and indexes -/
  | chain (lineStart : Bool)
  /-- what follows `else` -/
  | otherwise
  | statement
  | item
deriving DecidableEq, Repr

/-- A layout for every form. -/
abbrev Layouts := Form → Tree → List Doc

variable (sub : Layouts)

/-- A tree as its text. Tokens that are kept as they stand have no layout. -/
def verbatim (t : Tree) : List Doc :=
  if t.isKind .verbatim then unset
  else if t.isAbsent then []
  else word t.text

/-- A word and a blank, when there is a word. -/
def wordBefore (t : Tree) : List Doc := if t.isAbsent then [] else word (t.text ++ " ")

/-- A path of names alone. -/
def plainPath (path : Tree) : List Doc :=
  word (String.join (path.parts.filterMap fun t =>
    if t.isAbsent then none
    else match t with
      | .node .segment (name :: _) => some name.text
      | t => some t.text))

/-! ## Macro calls -/

/-- A macro call, perhaps with a name. One in braces always takes several lines. -/
def callWith (path name body : Tree) : List Doc :=
  plainPath path ++ word "!" ++ (if name.isAbsent then [] else word " " ++ word name.text) ++
    match body.tokens with
    | .group d body _ _ :: _ =>
      let edge := if d = .brace then newline else cut
      let inside := if body.isEmpty then [] else
        uniform step (outdent (edge ++ filled 0 (freeTokens false .start true body) ++ edge))
      word (if d = .brace then " " ++ opening d else opening d) ++ inside ++ word (closing d)
    | _ => []

def invocation (call : Tree) : List Doc := callWith (call.part 0) .absent (call.part 2)

/-! ## Macro definitions -/

/-- What a macro definition goes on with. -/
inductive RulePart where
  | matcher
  | equals
  | arrow
  | body
  | semicolon

/-- What a rule of a macro definition matches. -/
def ruleMatcher (d : Delimiter) (tokens : List Token) : List Doc :=
  let inside := if tokens.isEmpty then [] else
    uniform step (outdent (cut ++ filled 0 (freeTokens true .start true tokens) ++ cut))
  word (opening d) ++ inside ++ word (closing d)

/-- What a rule of a macro definition gives. It always takes several lines. -/
def ruleBody (tokens : List Token) : List Doc :=
  let inside := if tokens.isEmpty then [] else
    uniform step (outdent (newline ++ filled 0 (freeTokens false .start true tokens) ++ newline))
  word " \x7b" ++ stay ++ inside ++ word "\x7d"

/-- The rules of a macro definition, each on lines of its own. Tokens that make no rules have no
layout, but the last rule may end early. -/
def macroRules (next : RulePart) : List Token → List Doc
  | [] =>
    match next with
    | .matcher => []
    | .semicolon => word ";" ++ newline
    | _ => newline
  | t :: ts =>
    match next, t with
    | .matcher, .group d tokens _ _ => ruleMatcher d tokens ++ macroRules .equals ts
    | .equals, .sign '=' true _ => word " =" ++ macroRules .arrow ts
    | .arrow, .sign '>' false _ => word ">" ++ macroRules .body ts
    | .body, .group _ tokens _ _ => ruleBody tokens ++ macroRules .semicolon ts
    | .semicolon, .sign ';' false _ => word ";" ++ newline ++ macroRules .matcher ts
    | _, _ => unset

def macroDefinition (name body : Tree) : List Doc :=
  match body.tokens with
  | .group _ rules _ _ :: _ =>
    word "macro_rules! " ++ word name.text ++ word " \x7b"
      ++ uniform step (outdent (newlineInside ++ macroRules .matcher rules))
      ++ word "\x7d"
  | _ => []

/-- A macro call that stands as an item. -/
def callItem (path name body semi : Tree) : List Doc :=
  if path.text == "macro_rules" && !name.isAbsent then macroDefinition name body
  else callWith path name body ++ word semi.text

/-! ## Attributes -/

/-- The text that an attribute such as `doc = "text"` gives to a name. -/
def attributeText? (name : String) (content : Tree) : Option String :=
  match content with
  | .node .metaValue [path, _, .node .literal [value]] =>
    match path.text == name, Literal.read? value.tokens with
    | true, some (⟨.text s, _, _⟩, []) => some s
    | _, _ => none
  | _ => none

/-- Whether a text may stand between the marks of a block comment: its own marks are balanced. -/
def fitsBlockComment : (depth : Nat) → List Char → Bool
  | depth, '/' :: '*' :: rest => fitsBlockComment (depth + 1) rest
  | depth, '*' :: '/' :: rest =>
    match depth with
    | 0 => false
    | d + 1 => fitsBlockComment d rest
  | depth, [c] => depth == 0 && c != '/'
  | depth, _ :: rest => fitsBlockComment depth rest
  | _, [] => false

def withoutTrailingBlanks (cs : List Char) : List Char :=
  (cs.reverse.dropWhile (· = ' ')).reverse

/-- Removes blanks before line ends. -/
def withoutInnerBlanks (s : String) : String :=
  let lines := Text.splitAtChar '\n' s.toList
  String.intercalate "\n"
    ((lines.dropLast.map withoutTrailingBlanks ++ lines.getLast?.toList).map String.ofList)

/-- An attribute's text as a comment: on one line or as a block. `line` and `block` open the two;
a text for which `fits` fails keeps its attribute. -/
def comment? (line block : String) (fitsLine fitsBlock : List Char → Bool) (s : String) :
    Option (List Doc) :=
  let cs := s.toList
  if !cs.contains '\n' && fitsLine cs then
    some (word line ++ word (String.ofList (withoutTrailingBlanks cs)) ++ newline)
  else if fitsBlockComment 0 cs && fitsBlock cs then
    some (word block ++ word (withoutInnerBlanks s) ++ word "*/" ++ newline)
  else none

/-- Whether a text starts with none of some characters. -/
def startsWithNone (marks : List Char) (cs : List Char) : Bool :=
  match cs with
  | c :: _ => !marks.contains c
  | [] => true

/-- An attribute that stands for a comment. -/
def attributeComment? (inner : Bool) (content : Tree) : Option (List Doc) :=
  match attributeText? "doc" content with
  | some s =>
    if inner then comment? "//!" "/*!" (fun _ => true) (fun _ => true) s
    else comment? "///" "/**" (startsWithNone ['/']) (startsWithNone ['*', '/']) s
  | none =>
    match attributeText? "comment" content with
    | some s => comment? "//" "/*" (fun _ => true) (startsWithNone ['*', '!']) s
    | none => none

/-- What an attribute holds. -/
def attributeContent (content : Tree) : List Doc :=
  plainPath (content.part 0) ++
    match content with
    | .node .metaList [_, body] => attributeTokens false body.tokens
    | .node .metaValue [_, _, value] => word " = " ++ sub .expr value
    | _ => []

def attributeLine (attr : Tree) : List Doc :=
  let inner := !(attr.part 1).isAbsent
  let content := (attr.part 2).part 0
  match attributeComment? inner content with
  | some docs => docs
  | none =>
    word (if inner then "#!" else "#") ++ word "[" ++ attributeContent sub content ++ word "]"
      ++ space

/-- The attributes of a node, each on its line. -/
def attributes (attrs : Tree) : List Doc := attrs.parts.flatMap (attributeLine sub)

end TypedSettings.Layout
