import TypedSettings.Layout.Form

/-!
The layout of paths, types, bounds and generic parameters.
-/

namespace TypedSettings.Layout

open Source

variable (sub : Layouts)

/-- The members of a list that stands between two brackets of its own. -/
def inBrackets (parts : List Tree) : List Tree := Tree.members (parts.drop 1).dropLast

/-- The members of a part that is a group. -/
def groupMembers (t : Tree) : List Tree := Tree.members t.parts

/-- A result after an arrow. -/
def result (t : Tree) : List Doc :=
  if t.isAbsent then [] else word " -> " ++ sub .type (t.part 1)

/-! ## Paths -/

/-- Bounds after a colon; a line may end before each further one. -/
def boundsAfterColon (bounds : Tree) : List Doc :=
  match Tree.members bounds.parts with
  | [] => []
  | first :: rest =>
    word ": " ++ sub .bound first ++ rest.flatMap fun b => space ++ word "+ " ++ sub .bound b

/-- Generic arguments, where `args` sets the arguments of a name inside. -/
def genericArgument (args : Tree → List Doc) (t : Tree) : List Doc :=
  match t with
  | .node .lifetime _ => verbatim t
  | .node .constArg [e] =>
    if e.isKind .literal || e.isKind .blockExpr then sub .expr e
    else word "\x7b" ++ sub .expr e ++ word "\x7d"
  | .node .assocType [name, more, _, ty] =>
    verbatim name ++ args more ++ word " = " ++ sub .type ty
  | .node .assocConst [name, more, _, value] =>
    verbatim name ++ args more ++ word " = " ++ sub .expr (value.part 0)
  | .node .constraint [name, more, _, bounds] =>
    verbatim name ++ args more ++ filled step (boundsAfterColon sub bounds)
  | t => sub .type t

/-- The arguments of a path's name. -/
def pathArguments (place : PathPlace) (t : Tree) : List Doc :=
  match t with
  | .node .angleArgs (_ :: parts) =>
    let args := inBrackets parts
    if args.isEmpty then []
    else
      let inner := fun more => sub (.path .type) (.node .path [.absent, .node .segment [.absent, more]])
      word (if place = .expr then "::<" else "<")
        ++ listed step (args.map (genericArgument sub inner)) ++ word ">"
  | .node .parenArgs [args, res] =>
    uniform step
      (word "(" ++ outdent (cut ++ eachThen comma ((groupMembers args).map (sub .type)))
        ++ word ")" ++ result sub res)
  | _ => []

def segment (place : PathPlace) (t : Tree) : List Doc :=
  verbatim (t.part 0) ++ pathArguments sub place (t.part 1)

/-- A path, perhaps through a type in angle brackets. -/
def path (place : PathPlace) (t : Tree) : List Doc :=
  match t with
  | .node .path (lead :: rest) =>
    (if lead.isAbsent then [] else word "::")
      ++ between (word "::") ((Tree.members rest).map (segment sub place))
  | .node .selfPath (_ :: ty :: _ :: trait' :: _ :: _ :: rest) =>
    word "<" ++ sub .type ty
      ++ (if trait'.isAbsent then [] else word " as " ++ sub (.path .type) trait')
      ++ word ">"
      ++ (Tree.members rest).flatMap fun s => word "::" ++ segment sub place s
  | t => verbatim t

/-! ## Generic parameters -/

/-- Bounds with a plus between them, on one line. -/
def boundsInLine (bounds : Tree) : List Doc :=
  between (word " + ") ((Tree.members bounds.parts).map (sub .bound))

/-- A value after `=`, when there is one. -/
def defaultAfter (sep : List Doc) (form : Form) (t : Tree) : List Doc :=
  if t.isAbsent then [] else sep ++ word "= " ++ sub form t

def genericParam (t : Tree) : List Doc :=
  match t with
  | .node .lifetimeParam [attrs, name, _, bounds] =>
    attributes sub attrs ++ verbatim name
      ++ if bounds.isAbsent then [] else word ": " ++ boundsInLine sub bounds
  | .node .typeParam [attrs, name, _, bounds, _, default] =>
    attributes sub attrs ++ verbatim name
      ++ filled step (boundsAfterColon sub bounds ++ defaultAfter sub space .type default)
  | .node .constParam [attrs, _, name, _, ty, _, default] =>
    attributes sub attrs ++ word "const " ++ verbatim name ++ word ": " ++ sub .type ty
      ++ defaultAfter sub (word " ") .expr (default.part 0)
  | t => verbatim t

def generics (t : Tree) : List Doc :=
  if t.isAbsent then []
  else word "<" ++ listed 0 ((inBrackets t.parts).map (genericParam sub)) ++ word ">"

/-- Parameters that are bound in front of a type. -/
def boundParams (t : Tree) : List Doc :=
  if t.isAbsent then []
  else
    word "for<" ++ between (word ", ") ((inBrackets (t.parts.drop 1)).map (genericParam sub))
      ++ word "> "

/-! ## Bounds -/

def bound (t : Tree) : List Doc :=
  match t with
  | .node .bound [maybe, params, path] =>
    boundParams sub params ++ verbatim maybe ++ sub (.path .type) path
  | .node .parenBound [body] => word "(" ++ sub .bound (body.part 0) ++ word ")"
  | .node .capture (_ :: params) =>
    word "use<" ++ between (word ", ") ((inBrackets params).map verbatim) ++ word ">"
  | t => verbatim t

/-! ## Types -/

/-- The word `extern` with the name of a calling convention. -/
def abi (t : Tree) : List Doc :=
  match t.tokens with
  | [.word w _, .literal l _] => word (w ++ " " ++ l ++ " ")
  | _ => wordBefore t

/-- An argument of a function type. -/
def functionArgument (t : Tree) : List Doc :=
  attributes sub (t.part 0)
    ++ (if (t.part 1).isAbsent then [] else verbatim (t.part 1) ++ word ": ")
    ++ if t.isKind .typeVariadic then word "..." else sub .type (t.part 3)

/-- Arguments of a function type; the dots of a variadic one have no comma. -/
def functionArguments (args : List Tree) : List Doc :=
  uniform step (outdent (cut ++ eachThen
    (fun last => if last && (args.getLast?.any (Tree.isKind .typeVariadic)) then cut else comma last)
    (args.map (functionArgument sub))))

def type (t : Tree) : List Doc :=
  match t with
  | .node .typePath [p] => path sub .type p
  | .node .typeTuple [body] =>
    word "(" ++ listedTuple ((groupMembers body).map (sub .type)) ++ word ")"
  | .node .typeParen [body] => word "(" ++ sub .type (body.part 0) ++ word ")"
  | .node .typeArray [body] =>
    word "[" ++ sub .type (body.part 0) ++ word "; " ++ sub .expr (body.part 2) ++ word "]"
  | .node .typeSlice [body] => word "[" ++ sub .type (body.part 0) ++ word "]"
  | .node .typePointer [_, access, target] => word "*" ++ wordBefore access ++ sub .type target
  | .node .typeRef [_, lifetime, mut', target] =>
    word "&" ++ wordBefore lifetime ++ wordBefore mut' ++ sub .type target
  | .node .typeCall [call] => invocation call
  | .node .typeFunction [params, guard, abi', _, args, res] =>
    boundParams sub params ++ wordBefore guard ++ abi abi' ++ word "fn("
      ++ functionArguments sub (groupMembers args) ++ word ")" ++ result sub res
  | .node .typeObject [_, bounds] => word "dyn " ++ boundsInLine sub bounds
  | .node .typeImpl [_, bounds] => word "impl " ++ boundsInLine sub bounds
  | t => verbatim t

/-! ## Where clauses -/

/-- A predicate of a where clause. -/
def predicate (t : Tree) : List Doc :=
  match t with
  | .node .predicate [params, subject, _, bounds] =>
    let list := Tree.members bounds.parts
    let isLifetime := subject.isKind .lifetime
    boundParams sub params
      ++ (if isLifetime then verbatim subject else sub .type subject)
      ++ word ":"
      ++ filled (if list.length = 1 && !isLifetime then 0 else step)
        (match list with
          | [] => []
          | first :: rest =>
            word " " ++ sub .bound first
              ++ rest.flatMap fun b => space ++ word "+ " ++ sub .bound b)
  | t => verbatim t

/-- The predicates of a where clause. -/
def wherePredicates (t : Tree) : List (List Doc) :=
  match t with
  | .node .whereClause (_ :: predicates) => (Tree.members predicates).map (predicate sub)
  | _ => []

/-- What stands between the head of an item and its body in braces: a blank, or a where clause with
a predicate on each line. -/
def whereBeforeBody (t : Tree) : List Doc :=
  if t.isAbsent then word " "
  else outdent newline ++ word "where" ++ newline
    ++ outdent (eachThen (fun _ => word "," ++ newline) (wherePredicates sub t))

/-- What ends an item without a body: a semicolon, perhaps after a where clause with a predicate on
each line. -/
def whereAndSemicolon (t : Tree) : List Doc :=
  if t.isAbsent then word ";"
  else outdent newline ++ word "where" ++ newline
    ++ eachThen (fun last => if last then word ";" else word "," ++ newline) (wherePredicates sub t)

/-- A where clause that may stay on the line of what it belongs to, and a blank. -/
def whereInLine (t : Tree) : List Doc :=
  if t.isAbsent then word " "
  else outdent space ++ word "where" ++ space
    ++ outdent (eachThen commaOrSpace (wherePredicates sub t))

/-- A where clause that may stay on the line of what it belongs to, and a semicolon. -/
def whereInLineAndSemicolon (t : Tree) : List Doc :=
  if t.isAbsent then word ";"
  else outdent space ++ word "where" ++ space
    ++ eachThen (fun last => if last then word ";" else commaOrSpace false) (wherePredicates sub t)

end TypedSettings.Layout
