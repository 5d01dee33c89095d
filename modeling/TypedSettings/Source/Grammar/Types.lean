import TypedSettings.Source.Grammar.Path

/-!
Types and the bounds on them.
-/

namespace TypedSettings.Source.Grammar

open TypedSettings.Source.Parser Token

variable (rules : Rules)

/-! ## Bounds -/

/-- The lifetimes and names that an opaque type captures. -/
def capture : Parser Tree := do
  let use' ← keyword "use"
  let lt ← op "<"
  let params ← separated (isOp ">") (do
    if ← peek isLifetime then return .node .lifetime [← lifetime]
    else if ← peekWord "Self" then anyWord
    else ident) ","
  return .node .capture
    (use' :: lt :: lifetimesFirst (Tree.isKind .lifetime) params ++ [← op ">"])

/-- The constness in front of a bound, in either of its spellings. -/
def boundConst : Parser Tree := do
  if ← peekGroup .bracket then group .bracket do return [← keyword "const"]
  else keyword? "const"

/-- A trait as a bound: parameters, constness, `?` and a path; `none` for one with constness, which
`const` allows. A bound with `?` has no parameters. -/
def traitBound? (const : Bool) : Parser (Option Tree) := do
  let params ← forParams? rules
  let constness ← boundConst
  if !constness.isAbsent && !const then fail
  let maybe ← op? "?"
  if !maybe.isAbsent && (!params.isAbsent || (← peekWord "for")) then fail
  let base ← path rules false
  let base ← if base.parts.getLast?.any hasNoArgs && (← peek opensParenArgs)
    then withParenArgs rules base else pure base
  if constness.isAbsent then return some (.node .bound [maybe, params, base]) else return none

/-- A trait as a bound without constness. -/
def traitBound : Parser Tree := do
  match ← traitBound? rules false with
  | some t => return t
  | none => fail

/-- A bound. One with constness keeps its tokens. -/
def bound (captures const : Bool) : Parser Tree := do
  if ← peek isLifetime then return .node .lifetime [← lifetime]
  else if ← peekWord "use" then
    if captures then capture else fail
  else orVerbatim do
    if ← peekGroup .paren then
      let body ← group .paren do return (← traitBound? rules const).toList
      return if body.parts.isEmpty then none else some (.node .parenBound [body])
    else traitBound? rules const

/-- What may start a bound after a `+`. -/
def startsBound (const : Bool) (ts : List Token) : Bool :=
  isAnyWord ts || isOp "::" ts || isOp "?" ts || isLifetime ts || isGroup .paren ts
    || (const && isGroup .bracket ts)

/-- One bound, or several joined by `+` when `plus` allows it. A `+` may end the list. -/
def boundList (plus captures const : Bool) : Parser Tree := do
  let first ← rules (.bound captures const)
  let rec more : Nat → Parser (List Tree)
    | 0 => return []
    | n + 1 => do
      if plus && (← peekOp "+") then
        let sep ← op "+"
        if ← peek (startsBound const) then
          return sep :: (← rules (.bound captures const)) :: (← more n)
        else return [sep]
      else return []
  return .node .bounds (first :: (← more ((← get).rest.length + 1)))

/-- Bounds hold a trait, not lifetimes alone. -/
def hasTrait (bounds : Tree) : Bool :=
  (Tree.members bounds.parts).any fun b => !(b.isKind .lifetime || b.isKind .capture)

def boundsWithTrait (plus captures const : Bool) : Parser Tree := do
  let bounds ← boundList rules plus captures const
  if hasTrait bounds then return bounds else fail

/-- Bounds after a first one that has been read. -/
def boundsAfter (first : Tree) : Parser Tree := do
  let rest ← repeating do
    if ← peekOp "+" then return some [← op "+", ← rules (.bound false false)] else return none
  return .node .bounds (first :: rest)

/-! ## Function types -/

/-- Whether a text literal comes next. -/
def isTextLiteral : List Token → Bool
  | .literal text _ :: _ =>
    match (Literal.classify text).1 with
    | .text _ => true
    | _ => false
  | _ => false

def abi? : Parser Tree := do
  if ← peekWord "extern" then
    let word ← keyword "extern"
    if ← peek isTextLiteral then return .run (word.tokens ++ (← raw 1).tokens) else return word
  else return .absent

/-- Whether an argument of a function type starts with its name. The first may be `self`. -/
def startsNamed (first : Bool) (ts : List Token) : Bool :=
  (isIdent ts || isWord "_" ts || (first && isWord "self" ts)) && isOp ":" (skip ts)
    && !isOp "::" (skip ts)

def isMutSelf (ts : List Token) : Bool := isWord "mut" ts && isWord "self" (skip ts)

/-- An argument of a function type. The first may name a receiver; one that is `mut` keeps its
tokens. -/
def functionArgument (first : Bool) : Parser Tree := do
  let attrs ← outerAttributes rules
  let ts := (← get).rest
  if first && isMutSelf ts then
    return .node .typeArgument [attrs, .absent, .absent, ← verbatim do
      let word ← raw 2
      if ← peek fun ts => isOp ":" ts && !isOp "::" ts then
        let _ ← op ":"
        rules (.type true)
      else return word]
  else if first && startsNamed false ts && isMutSelf (ts.drop 2) then
    return .node .typeArgument [attrs, .absent, .absent, ← verbatim (raw 4)]
  else
    let name ← if startsNamed first ts then anyWord else pure .absent
    let colon ← if name.isAbsent then pure .absent else op ":"
    if !isWord "self" ts && (← peekOp "...") then
      return .node .typeVariadic [attrs, name, colon, ← op "..."]
    else return .node .typeArgument [attrs, name, colon, ← rules (.type true)]

def functionArguments : Parser (List Tree) := do
  if ← atEnd then return []
  let first ← functionArgument rules true
  if ← atEnd then return [first]
  return first :: (← op ",") :: (← commaList (functionArgument rules false))

def functionType (params : Tree) : Parser Tree := do
  let guard ← keyword? "unsafe"
  let abi ← abi?
  let fn ← keyword "fn"
  let args ← group .paren (functionArguments rules)
  if (Tree.members args.parts).dropLast.any (Tree.isKind .typeVariadic) then fail
  return .node .typeFunction [params, guard, abi, fn, args, ← result rules false]

/-! ## Types -/

/-- What stands in parentheses: unit, a tuple, a bound, or a type. -/
def parenType (plus : Bool) : Parser Tree := do
  let c ← get
  match c.rest with
  | .group .paren [] pos close :: rest =>
    set { c with rest }
    return .node .typeTuple [.group .paren [] pos close]
  | .group .paren body _ _ :: _ =>
    if isLifetime body then
      return .node .typeParen [← group .paren do
        return [.node .typeObject [.absent, ← boundsWithTrait rules true false false]]]
    else if isOp "?" body then
      let first ← group .paren do return [← traitBound rules]
      return .node .typeObject [.absent, ← boundsAfter rules (.node .parenBound [first])]
    else
      let inner ← group .paren (commaList (rules (.type true)))
      match inner.parts with
      | [ty] =>
        let alone : Option Tree := match ty with
          | .node .typePath [.node .path ps] =>
            some (.node .bound [.absent, .absent, .node .path ps])
          | .node .typeObject [.run [], .node .bounds [b]] => some b
          | _ => none
        match alone with
        | some b =>
          if plus && (← peekOp "+") then
            let inside := match b with
              | .node .parenBound [.group _ [b] _ _] => b
              | b => b
            let b := if b.isKind .lifetime then b
              else .node .parenBound [match inner with
                | .group d _ pos close => .group d [inside] pos close
                | t => t]
            return .node .typeObject [.absent, ← boundsAfter rules b]
          else return .node .typeParen [inner]
        | none => return .node .typeParen [inner]
      | _ => return .node .typeTuple [inner]
  | _ => fail

/-- A type that starts with a path: the path, a call of a macro, or bounds without `dyn`. -/
def pathType (params : Tree) (plus : Bool) : Parser Tree := do
  let base ← selfPath rules false
  if base.isKind .selfPath then return .node .typePath [base]
  if (← peek fun ts => isOp "!" ts && !isOp "!=" ts) && isModStyle base then
    return .node .typeCall [← invocationAfter base]
  if !params.isAbsent || (plus && (← peekOp "+")) then
    let first : Tree := .node .bound [.absent, params, base]
    let rest ← repeating do
      if plus && (← peekOp "+") then
        let sep ← op "+"
        if ← peek (startsBound false) then return some [sep, ← rules (.bound false false)]
        else return some [sep]
      else return none
    return .node .typeObject [.absent, .node .bounds (first :: rest)]
  return .node .typePath [base]

def startsPath (ts : List Token) : Bool :=
  isIdent ts || isWord "super" ts || isWord "self" ts || isWord "Self" ts || isWord "crate" ts
    || isOp "::" ts || isOp "<" ts

def startsFunction (ts : List Token) : Bool :=
  isWord "fn" ts || isWord "unsafe" ts || isWord "extern" ts

/-- A type; `none` for one that keeps its tokens. -/
def type? (plus : Bool) : Parser (Option Tree) := do
  let params ← forParams? rules
  if !params.isAbsent && !(← peek fun ts => startsFunction ts ||
      (startsPath ts && !isOp "::" ts && !isOp "<" ts)) then fail
  if ← peekGroup .paren then some <$> parenType rules plus
  else if ← peek startsFunction then some <$> functionType rules params
  else if ← peek startsBuiltin then
    let _ ← builtinCall
    return none
  else if ← peek startsPath then some <$> pathType rules params plus
  else if ← peekWord "dyn" then
    let dyn ← keyword "dyn"
    let star ← op? "*"
    let bounds ← boundsWithTrait rules plus false false
    return if star.isAbsent then some (.node .typeObject [dyn, bounds]) else none
  else if ← peekGroup .bracket then
    let body ← group .bracket do
      let elem ← rules (.type true)
      if ← peekOp ";" then return [elem, ← op ";", ← rules (.expr true)] else return [elem]
    return some (.node (if body.parts.length = 1 then .typeSlice else .typeArray) [body])
  else if ← peekOp "*" then
    let star ← op "*"
    let access ← if ← peekWord "mut" then keyword "mut" else keyword "const"
    return some (.node .typePointer [star, access, ← rules (.type false)])
  else if ← peekOp "&" then
    let amp ← op "&"
    let l ← lifetime?
    let mut' ← keyword? "mut"
    return some (.node .typeRef [amp, l, mut', ← rules (.type false)])
  else if ← peekOp "!" then return some (.node .typeNever [← op "!"])
  else if ← peekWord "impl" then
    return some (.node .typeImpl [← keyword "impl", ← boundsWithTrait rules plus true true])
  else if ← peekWord "_" then return some (.node .typeInfer [← anyWord])
  else if ← peek isLifetime then
    return some (.node .typeObject [.absent, ← boundsWithTrait rules true false false])
  else fail

def type (plus : Bool) : Parser Tree := orVerbatim (type? rules plus)

end TypedSettings.Source.Grammar
