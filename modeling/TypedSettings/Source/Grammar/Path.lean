import TypedSettings.Source.Grammar.Core

/-!
Paths and their arguments, generic parameters, and attributes.
-/

namespace TypedSettings.Source.Grammar

open TypedSettings.Source.Parser Token

variable (rules : Rules)

/-! ## Attributes -/

/-- A path of names alone, where only identifiers and the path words are names. -/
def plainPath : Parser Tree := do
  let isName : List Token → Bool := fun ts =>
    isIdent ts || isWord "super" ts || isWord "self" ts || isWord "Self" ts || isWord "crate" ts
  let name : Parser Tree := do
    if ← peek isName then return .node .segment [← anyWord, .absent] else fail
  let lead ← op? "::"
  let first ← name
  let rest ← repeating do
    if ← peekOp "::" then return some [← op "::", ← name] else return none
  return .node .path (lead :: first :: rest)

/-- The path of an attribute. -/
def attributePath : Parser Tree := do
  if ← peekWord "unsafe" then
    return .node .path [.absent, .node .segment [← anyWord, .absent]]
  else plainPath

/-- A path with a value. The value starts with no attribute. -/
def attributeValue (path : Tree) : Parser Tree := do
  let eq ← op "="
  if ← peek fun ts => isOp "#" ts && isGroup .bracket (skip ts) then fail
  return .node .metaValue [path, eq, ← rules (.expr true)]

/-- The content of an attribute: a path, a path with a group, or a path with a value. -/
def attributeContent : Parser Tree := do
  let path ← attributePath
  if ← peek fun ts => isGroup .paren ts || isGroup .bracket ts || isGroup .brace ts then
    return .node .metaList [path, ← rawGroup]
  else if ← peekOp "=" then attributeValue rules path
  else return .node .metaPath [path]

def oneAttribute (inner : Bool) : Parser Tree := do
  let pound ← op "#"
  let bang ← if inner then op "!" else pure .absent
  let body ← group .bracket do return [← attributeContent rules]
  return .node .attr [pound, bang, body]

def outerAttributes : Parser Tree := do
  return .node .attributes (← manyUntil (fun ts => !isOp "#" ts) (oneAttribute rules false))

def innerAttributes : Parser Tree := do
  return .node .attributes
    (← manyUntil (fun ts => !(isOp "#" ts && isOp "!" (skip ts))) (oneAttribute rules true))

/-! ## Path arguments -/

/-- A constant as a generic argument: a literal, a name, or a block. -/
def constArgument : Parser Tree := do
  if ← peekLiteral then return .node .constArg [← literal]
  else if ← peek isIdent then
    return .node .constArg [.node .pathExpr
      [.node .path [.absent, .node .segment [← ident, .absent]]]]
  else if ← peekGroup .brace then
    return .node .constArg [.node .blockExpr [.absent, ← rules (.block true)]]
  else fail

/-- The name and the arguments of a type that is one plain segment. -/
def onlySegment? : Tree → Option (Tree × Tree)
  | .node .typePath [.node .path [.run [], .node .segment [name, args]]] =>
    if args.isAbsent || args.isKind .angleArgs then some (name, args) else none
  | _ => none

/-- Bounds separated by `+`. -/
def boundsAfterColon (stop : List Token → Bool) : Parser Tree := do
  return .node .bounds (← chained stop (rules (.bound false true)) "+")

def genericArgument : Parser Tree := do
  if ← peek fun ts => isLifetime ts && !isOp "+" (skip ts) then
    return .node .lifetime [← lifetime]
  if (← peekLiteral) || (← peekGroup .brace) then return ← constArgument rules
  let ty ← rules (.type true)
  match onlySegment? ty with
  | none => return ty
  | some (name, args) =>
    if ← peekOp "=" then
      let eq ← op "="
      if (← peekLiteral) || (← peekGroup .brace) then
        return .node .assocConst [name, args, eq, ← constArgument rules]
      else return .node .assocType [name, args, eq, ← rules (.type true)]
    else if ← peekOp ":" then
      let colon ← op ":"
      let bounds ← boundsAfterColon rules fun ts => isOp "," ts || isOp ">" ts
      return .node .constraint [name, args, colon, bounds]
    else return ty

/-- Lifetimes come before other arguments, whatever the order they were written in. A comma that
this leaves missing is added, and every argument keeps the comma it was written with. -/
def lifetimesFirst (isLifetimeArg : Tree → Bool) (args : List Tree) : List Tree :=
  let rec pairs : List Tree → List (Tree × Option Tree)
    | [] => []
    | [t] => [(t, none)]
    | t :: sep :: rest => (t, some sep) :: pairs rest
  let all := pairs args
  let first := all.filter fun p => isLifetimeArg p.1
  let second := all.filter fun p => !isLifetimeArg p.1
  let rec join : List (Tree × Option Tree) → List Tree
    | [] => []
    | [(t, sep)] => t :: sep.toList
    | (t, sep) :: rest => t :: sep.getD (.run (operator ",")) :: join rest
  join (first ++ second)

/-- Arguments in angle brackets. -/
def angleArgs : Parser Tree := do
  let turbofish ← op? "::"
  let lt ← op "<"
  let args ← separated (isOp ">") (genericArgument rules) ","
  let gt ← op ">"
  return .node .angleArgs
    (turbofish :: lt :: lifetimesFirst (Tree.isKind .lifetime) args ++ [gt])

/-- A result type after an arrow. -/
def result (plus : Bool) : Parser Tree := do
  if ← peekOp "->" then return .node .result [← op "->", ← rules (.type plus)]
  else return .absent

/-- Arguments in parentheses, as in `Fn(A) -> B`. -/
def parenArgs : Parser Tree := do
  let args ← group .paren (commaList (rules (.type true)))
  return .node .parenArgs [args, ← result rules false]

/-! ## Paths -/

/-- A path segment. In an expression, arguments need a `::` in front. -/
def segment (inExpr : Bool) : Parser Tree := do
  if ← peek fun ts => isWord "super" ts || isWord "self" ts || isWord "crate" ts
      || isWord "try" ts then
    return .node .segment [← anyWord, .absent]
  let name ← if ← peekWord "Self" then anyWord else ident
  let angle ← peek fun ts => isOp "<" ts && !isOp "<=" ts && !isOp "<<=" ts
  let turbofish ← peek fun ts => isOp "::" ts && isOp "<" (ts.drop 2)
  if (!inExpr && angle) || turbofish then return .node .segment [name, ← angleArgs rules]
  else return .node .segment [name, .absent]

/-- The segments after the first. A `::` before a parenthesis belongs to what follows. -/
def moreSegments (inExpr : Bool) : Parser (List Tree) :=
  repeating do
    if ← peek fun ts => isOp "::" ts && !isGroup .paren (ts.drop 2) then
      return some [← op "::", ← segment rules inExpr]
    else return none

def path (inExpr : Bool) : Parser Tree := do
  let lead ← op? "::"
  let first ← segment rules inExpr
  return .node .path (lead :: first :: (← moreSegments rules inExpr))

/-- Whether a segment of a path has no arguments, or none between its brackets. -/
def hasNoArgs : Tree → Bool
  | .node .segment [_, args] => args.isAbsent || (args.isKind .angleArgs && args.parts.length = 3)
  | _ => false

/-- Whether parentheses come next, perhaps after a `::`. -/
def opensParenArgs (ts : List Token) : Bool :=
  isGroup .paren ts || (isOp "::" ts && isGroup .paren (ts.drop 2))

/-- Gives the last segment of a path the arguments in the parentheses that come next. -/
def withParenArgs (path : Tree) : Parser Tree := do
  let _ ← op? "::"
  let args ← parenArgs rules
  match path with
  | .node kind parts =>
    match parts.getLast? with
    | some (.node .segment [name, _]) =>
      return .node kind (parts.dropLast ++ [.node .segment [name, args]])
    | _ => return path
  | t => return t

/-- A path, perhaps through a type in angle brackets. -/
def selfPath (inExpr : Bool) : Parser Tree := do
  if ← peekOp "<" then
    let lt ← op "<"
    let ty ← rules (.type true)
    let as' ← keyword? "as"
    let trait' ← if as'.isAbsent then pure .absent else path rules false
    let gt ← op ">"
    let colons ← op "::"
    let first ← segment rules inExpr
    let rest ← repeating do
      if ← peekOp "::" then return some [← op "::", ← segment rules inExpr] else return none
    return .node .selfPath (lt :: ty :: as' :: trait' :: gt :: colons :: first :: rest)
  else path rules inExpr

/-- Whether a path is made of names alone. -/
def isModStyle : Tree → Bool
  | .node .path parts => parts.all fun t =>
    match t with
    | .node .segment [_, args] => args.isAbsent
    | _ => true
  | _ => false

/-- A call of a macro after its path: `!` and a group. -/
def invocationAfter (path : Tree) : Parser Tree := do
  return .node .invocation [path, ← op "!", ← rawGroup]

/-- A call of a built-in operation: its name after `builtin #`, and a group in parentheses. -/
def builtinCall : Parser Tree := verbatim do
  let _ ← keyword "builtin"
  let _ ← op "#"
  let _ ← ident
  if ← peekGroup .paren then rawGroup else fail

def startsBuiltin (ts : List Token) : Bool := isWord "builtin" ts && isOp "#" (skip ts)

/-! ## Generic parameters -/

/-- Lifetimes separated by `+`. -/
def lifetimeBounds (stop : List Token → Bool) : Parser Tree := do
  return .node .bounds (← chained stop (do return .node .lifetime [← lifetime]) "+")

/-- A colon that introduces no bounds is left out. -/
def withColon (colon bounds : Tree) : Tree × Tree :=
  if bounds.parts.isEmpty then (.absent, .absent) else (colon, bounds)

/-- A lifetime, a type or a constant as a parameter. -/
def genericParam : Parser Tree := do
  let attrs ← outerAttributes rules
  let stop : List Token → Bool := fun ts => isOp "," ts || isOp ">" ts
  if ← peek isLifetime then
    let l ← lifetime
    let colon ← op? ":"
    let bounds ← if colon.isAbsent then pure .absent else lifetimeBounds stop
    let (colon, bounds) := withColon colon bounds
    return .node .lifetimeParam [attrs, l, colon, bounds]
  else if ← peek isIdent then
    let name ← ident
    let colon ← op? ":"
    let bounds ← if colon.isAbsent then pure .absent
      else boundsAfterColon rules fun ts => stop ts || isOp "=" ts
    let (colon, bounds) := withColon colon bounds
    let eq ← op? "="
    let default ← if eq.isAbsent then pure .absent else rules (.type true)
    return .node .typeParam [attrs, name, colon, bounds, eq, default]
  else if ← peekWord "const" then
    let const ← keyword "const"
    let name ← ident
    let colon ← op ":"
    let ty ← rules (.type true)
    let eq ← op? "="
    let default ← if eq.isAbsent then pure .absent else constArgument rules
    return .node .constParam [attrs, const, name, colon, ty, eq, default]
  else fail

/-- A generic parameter, perhaps a type without a name. -/
def genericParamOrBlank : Parser Tree := do
  let start ← get
  let attrs ← outerAttributes rules
  if ← peekWord "_" then
    return .node .typeParam [attrs, ← anyWord, .absent, .absent, .absent, .absent]
  else
    set start
    genericParam rules

/-- Generic parameters in angle brackets; an empty list is the same as none. -/
def generics : Parser Tree := do
  if ← peekOp "<" then
    let lt ← op "<"
    let params ← separated (isOp ">") (genericParamOrBlank rules) ","
    let gt ← op ">"
    if params.isEmpty then return .absent
    return .node .generics
      (lt :: lifetimesFirst (Tree.isKind .lifetimeParam) params ++ [gt])
  else return .absent

/-- Parameters that are bound in front of a type or a closure, in the order they are written in. -/
def forParams : Parser Tree := do
  let for' ← keyword "for"
  let lt ← op "<"
  let params ← separated (isOp ">") (genericParam rules) ","
  return .node .forParams (for' :: lt :: params ++ [← op ">"])

def forParams? : Parser Tree := do
  if ← peekWord "for" then forParams rules else return .absent

/-- Whether an angle bracket opens generic parameters rather than a path. -/
def opensGenerics (ts : List Token) : Bool :=
  isOp "<" ts &&
    (let next := skip ts
     let after := skip next
     isOp ">" next || isOp "#" next
       || ((isLifetime next || isIdent next)
         && (isOp ":" after && !isOp "::" after || isOp "," after || isOp ">" after
           || isOp "=" after))
       || isWord "const" next)

/-! ## Where clauses -/

def predicateStop (ts : List Token) : Bool :=
  ts.isEmpty || isGroup .brace ts || isOp "," ts || isOp ";" ts
    || (isOp ":" ts && !isOp "::" ts) || isOp "=" ts

def predicate : Parser Tree := do
  if ← peek fun ts => isLifetime ts && isOp ":" (skip ts) then
    let l ← lifetime
    return .node .predicate [.absent, .node .lifetime [l], ← op ":", ← lifetimeBounds predicateStop]
  else
    let bound ← forParams? rules
    let ty ← rules (.type true)
    return .node .predicate
      [bound, ty, ← op ":", ← boundsAfterColon rules predicateStop]

/-- A where clause; one without predicates is the same as none. It has no parameters of its own. -/
def whereClause : Parser Tree := do
  if ← peekWord "where" then
    let where' ← keyword "where"
    if ← peek opensGenerics then fail
    let ps ← chained predicateStop (predicate rules) ","
    if ps.isEmpty then return .absent
    return .node .whereClause (where' :: ps)
  else return .absent

end TypedSettings.Source.Grammar
