import TypedSettings.Interface.Reader
import TypedSettings.Problem

/-!
Checks of annotations where they are written. A sound interface is given back without the
annotations of its methods; otherwise every unsound annotation is reported and nothing is given.
-/

namespace TypedSettings.Check

open Source

/-- Why an annotation is refused. -/
inductive Fault where
  | malformed
  | notInterface
  | notText
  | unknownMode (mode : String)
  | unknownStoreArgument
  | argument (fault : ArgumentFault)
deriving DecidableEq, Repr

def Fault.message : Fault → String
  | malformed => syntaxTag
  | notInterface => "#[preferences] can only be applied to trait declarations"
  | notText => "expected a string literal, e.g. name = \"app\""
  | unknownMode mode =>
    "unknown store mode: `" ++ mode ++ "`. Expected one of: "
      ++ ", ".intercalate (StoreMode.all.map StoreMode.text)
  | unknownStoreArgument => "unknown preferences argument. Expected `name` or `mode`"
  | argument .blankKey => "preference key cannot be empty"
  | argument (.unknownMethodArgument name) =>
    "unknown pref argument: `" ++ name ++ "`. Expected one of: key, default, default_expr"
  | argument .invalidExpression => "invalid default expression: " ++ syntaxTag
  | argument _ => syntaxTag

/-- What a check gives: the faults, and the tokens that stay. -/
structure Checked where
  faults : List Fault
  tokens : List Token
deriving Repr

/-! ## The annotation of an interface -/

/-- The string that an expression is. -/
def text? : Tree → Option String
  | .node .literal [.run [.literal text pos]] =>
    match (Literal.ofToken text pos).kind with
    | .text value => some value
    | _ => none
  | _ => none

/-- What one argument says. -/
def storeArg (arg : Tree) : Except Fault StoreArg :=
  match text? (arg.part 2) with
  | none => .error .notText
  | some value =>
    let path := arg.part 0
    let name := if (path.part 0).isAbsent then InterfaceDecl.pathNames path else []
    if name = ["name"] then .ok (.name value)
    else if name = ["mode"] then
      match StoreMode.ofText? value with
      | some mode => .ok (.mode mode)
      | none => .error (.unknownMode value)
    else .error .unknownStoreArgument

/-- The arguments of an interface's annotation; all are read before one is looked at. -/
def storeArgs (args : List Token) : Except Fault (List StoreArg) := do
  let trees ← match readTokens (fun rules => Parser.commaList do
      Grammar.attributeValue rules (← Grammar.attributePath)) args with
    | .ok trees => pure (Tree.members trees)
    | .error _ => throw .malformed
  trees.mapM storeArg

/-! ## The annotations of methods -/

/-- Whether an attribute is the annotation of a method. -/
def isMark (attr : Tree) : Bool := InterfaceDecl.isPlain "pref" attr

/-- The faults of attributes, one for each unsound annotation. -/
def markFaults (attrs : List Tree) : List Fault :=
  (attrs.filter isMark).filterMap fun attr =>
    match ArgReader.ofAttribute (MethodArg.read true) attr with
    | .ok _ => none
    | .error (fault, _) => some (.argument fault)

/-- The attributes inside the braces of a body. -/
def bodyAttributes (body : Tree) : Tree :=
  if body.isKind .block then (body.part 0).part 0 else .absent

/-- The faults of a member. -/
def memberFaults : Tree → List Fault
  | .node .traitFn [attrs, _, body] => markFaults (attrs.parts ++ (bodyAttributes body).parts)
  | _ => []

/-- Leaves the annotations of methods out. -/
def withoutMarks : Tree → Tree
  | .node .attributes attrs => .node .attributes (attrs.filter fun a => !isMark a)
  | t => t

/-- A body without annotations in its braces. -/
def stripBody : Tree → Tree
  | .node .block [.group d (attrs :: stmts) pos close] =>
    .node .block [.group d (withoutMarks attrs :: stmts) pos close]
  | t => t

/-- A member without annotations. -/
def stripMember : Tree → Tree
  | .node .traitFn [attrs, sig, body] => .node .traitFn [withoutMarks attrs, sig, stripBody body]
  | t => t

/-- The members of an interface. -/
def members (item : Tree) : List Tree := (item.part 10).parts.drop 1

/-- An interface without the annotations of its methods. -/
def stripItem : Tree → Tree
  | .node .itemTrait
      [attrs, vis, guard, auto, word, name, gens, colon, bounds, where',
       .group d (inner :: items) pos close] =>
    .node .itemTrait
      [attrs, vis, guard, auto, word, name, gens, colon, bounds, where',
       .group d (inner :: items.map stripMember) pos close]
  | t => t

/-! ## Checks -/

/-- Checks the annotation `args` of an interface and those of its methods. -/
def interface (args item : List Token) : Checked :=
  match storeArgs args with
  | .error fault => ⟨[fault], []⟩
  | .ok _ =>
    match readTokens Grammar.onlyTrait item with
    | .error _ => ⟨[.notInterface], []⟩
    | .ok tree =>
      match (members tree).flatMap memberFaults with
      | [] => ⟨[], (stripItem tree).tokens⟩
      | faults => ⟨faults, []⟩

/-- Checks the annotation `args` of a method, which stays as it is. -/
def method (args item : List Token) : Checked :=
  match ArgReader.list (MethodArg.read true) ⟨args, {}⟩ with
  | .ok _ => ⟨[], item⟩
  | .error (fault, _) => ⟨[.argument fault], item⟩

end TypedSettings.Check
