import TypedSettings.Source.Grammar.Types

/-!
Patterns.
-/

namespace TypedSettings.Source.Grammar

open TypedSettings.Source.Parser Token

variable (rules : Rules)

/-- What ends a range pattern that has no upper end. -/
def endsRange (ts : List Token) : Bool :=
  ts.isEmpty || isOp "|" ts || isOp "=" ts || (isOp ":" ts && !isOp "::" ts) || isOp "," ts
    || isOp ";" ts || isWord "if" ts

/-- An end of a range pattern: a literal, a path or a constant block. -/
def rangeEnd : Parser Tree := do
  if ← peekLiteral then return .node .patLiteral [← literal]
  else if ← peek startsPath then return .node .patPath [← selfPath rules true]
  else if ← peekWord "const" then
    return .node .patConst [← keyword "const", ← rules (.block true)]
  else fail

/-- The dots of a range pattern. Three dots are an old way to write `..=`. -/
def rangeOperator : Parser Tree := do
  if ← peekOp "..=" then op "..="
  else if ← peekOp "..." then
    let _ ← op "..."
    return .run (operator "..=")
  else op ".."

/-- The operator and the upper end of a range pattern. A closed range needs its end. -/
def rangeAfter (start : Tree) : Parser Tree := do
  let limits ← rangeOperator
  if ← peek endsRange then
    if limits.tokens.length = 2 then return .node .patRange [start, limits, .absent] else fail
  else return .node .patRange [start, limits, ← rangeEnd rules]

/-- The index of a member without a name. -/
def indexTree (n : Nat) : Tree := .run [.literal (toString n) {}]

/-- The index that the literal ahead is, if it is an integer. -/
def indexAhead? : List Token → Option Nat
  | .literal text _ :: _ => Literal.index? text.toList
  | _ => none

/-- The name of a field, or its index. -/
def member : Parser Tree := do
  match indexAhead? (← get).rest with
  | some n =>
    let _ ← raw 1
    return indexTree n
  | none => ident

def isNamed (member : Tree) : Bool :=
  match member.tokens with
  | [.word _ _] => true
  | _ => false

/-- A field of a structure pattern, or the dots that skip the others. A boxed field keeps its
tokens. -/
def patternField : Parser Tree := do
  let attrs ← outerAttributes rules
  if ← peekOp ".." then return .node .patField [attrs, .absent, .absent, .absent, ← op ".."]
  else if ← peekWord "box" then
    return .node .patField [attrs, .absent, .absent, .absent, ← verbatim do
      let _ ← keyword "box"
      let _ ← keyword? "ref"
      let _ ← keyword? "mut"
      ident]
  else
    let ref ← keyword? "ref"
    let mut' ← keyword? "mut"
    let words : Tree := .run (ref.tokens ++ mut'.tokens)
    let name ← if words.isAbsent then member else ident
    if (words.isAbsent && (← peekOp ":")) || !isNamed name then
      let colon ← op ":"
      return .node .patField [attrs, words, name, colon, ← rules .patterns]
    else return .node .patField [attrs, words, name, .absent, .absent]

/-- Whether a field of a structure pattern is the dots that skip the others. -/
def skipsOthers (field : Tree) : Bool := isOp ".." (field.part 4).tokens

/-- The fields of a structure pattern. Nothing follows the dots. -/
def patternFields : Parser (List Tree) := do
  let fields ← commaList (patternField rules)
  if fields.dropLast.any skipsOthers then fail else return fields

def pathPattern : Parser Tree := do
  let base ← selfPath rules true
  if base.isKind .path && (← peek fun ts => isOp "!" ts && !isOp "!=" ts) && isModStyle base then
    return .node .patCall [← invocationAfter base]
  else if ← peekGroup .brace then
    return .node .patStruct [base, ← group .brace (patternFields rules)]
  else if ← peekGroup .paren then
    return .node .patTupleStruct [base, ← group .paren (commaList (rules .patterns))]
  else if ← peekOp ".." then rangeAfter rules (.node .patPath [base])
  else return .node .patPath [base]

def identPattern : Parser Tree := do
  let ref ← keyword? "ref"
  let mut' ← keyword? "mut"
  let name ← if ← peekWord "self" then anyWord else ident
  if ← peekOp "@" then
    return .node .patIdent [ref, mut', name, ← op "@", ← rules .pattern]
  else return .node .patIdent [ref, mut', name, .absent, .absent]

def startsPathPattern (ts : List Token) : Bool :=
  let next := skip ts
  (isIdent ts && (isOp "::" next || isOp "!" next || isGroup .brace next || isGroup .paren next
      || isOp ".." next))
    || (isWord "self" ts && isOp "::" next)
    || isOp "::" ts || isOp "<" ts || isWord "Self" ts || isWord "super" ts || isWord "crate" ts

/-- A range that is open at one end. -/
def isHalfRange : Tree → Bool
  | .node .patRange [start, _, stop] => start.isAbsent || stop.isAbsent
  | _ => false

/-- A pattern in a slice. A range that is open at one end has to stand in parentheses there. -/
def slicePattern : Parser Tree := do
  let t ← rules .patterns
  if isHalfRange t then fail else return t

/-- A pattern without alternatives. A boxed one keeps its tokens. -/
def pattern : Parser Tree := do
  if ← peek startsPathPattern then pathPattern rules
  else if ← peekWord "_" then return .node .patWild [← anyWord]
  else if ← peekWord "box" then verbatim do
    let _ ← keyword "box"
    rules .pattern
  else if (← peekOp "-") || (← peekLiteral) || (← peekWord "const") then
    let start ← rangeEnd rules
    if ← peekOp ".." then rangeAfter rules start else return start
  else if ← peek fun ts => isWord "ref" ts || isWord "mut" ts || isWord "self" ts || isIdent ts then
    identPattern rules
  else if ← peekOp "&" then
    let amp ← op "&"
    let mut' ← keyword? "mut"
    return .node .patRef [amp, mut', ← rules .pattern]
  else if ← peekGroup .paren then
    let body ← group .paren (commaList (rules .patterns))
    match body.parts with
    | [only] => return .node (if only.isKind .patRest then .patTuple else .patParen) [body]
    | _ => return .node .patTuple [body]
  else if ← peekGroup .bracket then
    return .node .patSlice [← group .bracket (commaList (slicePattern rules))]
  else if ← peek fun ts => isOp ".." ts && !isOp "..." ts then
    let limits ← rangeOperator
    if ← peek endsRange then
      if limits.tokens.length = 2 then return .node .patRest [limits] else fail
    else return .node .patRange [.absent, limits, ← rangeEnd rules]
  else fail

def isAlternative (ts : List Token) : Bool := isOp "|" ts && !isOp "||" ts && !isOp "|=" ts

/-- A pattern, perhaps with alternatives and a bar in front. -/
def patterns : Parser Tree := do
  let lead ← op? "|"
  let first ← rules .pattern
  let rest ← repeating do
    if ← peek isAlternative then return some [← op "|", ← rules .pattern] else return none
  if lead.isAbsent && rest.isEmpty then return first
  return .node .patOr (lead :: first :: rest)

end TypedSettings.Source.Grammar
