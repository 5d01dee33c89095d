import TypedSettings.Source.Grammar.Patterns

/-!
Expressions and blocks. Binary operators bind by strength; an expression that ends in a block may
end a statement without a semicolon.
-/

namespace TypedSettings.Source.Grammar

open TypedSettings.Source.Parser Token

variable (rules : Rules)

/-! ## Operators -/

namespace Strength

def lowest : Nat := 0
def assign : Nat := 1
def range : Nat := 2
def or : Nat := 3
def and : Nat := 4
def compare : Nat := 6
def bitOr : Nat := 7
def bitXor : Nat := 8
def bitAnd : Nat := 9
def shift : Nat := 10
def sum : Nat := 11
def product : Nat := 12
def cast : Nat := 13

end Strength

/-- The binary operators with their strengths, longer signs before their beginnings. -/
def binaryOperators : List (String × Nat) :=
  [("+=", Strength.assign), ("-=", Strength.assign), ("*=", Strength.assign),
   ("/=", Strength.assign), ("%=", Strength.assign), ("^=", Strength.assign),
   ("&=", Strength.assign), ("|=", Strength.assign), ("<<=", Strength.assign),
   (">>=", Strength.assign), ("&&", Strength.and), ("||", Strength.or), ("<<", Strength.shift),
   (">>", Strength.shift), ("==", Strength.compare), ("<=", Strength.compare),
   ("!=", Strength.compare), (">=", Strength.compare), ("+", Strength.sum), ("-", Strength.sum),
   ("*", Strength.product), ("/", Strength.product), ("%", Strength.product),
   ("^", Strength.bitXor), ("&", Strength.bitAnd), ("|", Strength.bitOr),
   ("<", Strength.compare), (">", Strength.compare)]

/-- The binary operator ahead. -/
def operatorAhead? (ts : List Token) : Option (String × Nat) :=
  binaryOperators.find? fun p => isOp p.1 ts

def isPlainAssign (ts : List Token) : Bool := isOp "=" ts && !isOp "=>" ts

/-- The strength with which the tokens ahead bind to what stands before them. -/
def strengthAhead (ts : List Token) : Nat :=
  match operatorAhead? ts with
  | some (_, s) => s
  | none =>
    if isPlainAssign ts then Strength.assign
    else if isOp ".." ts then Strength.range
    else if isWord "as" ts then Strength.cast
    else Strength.lowest

/-- Whether a tree is a comparison. -/
def isComparison : Tree → Bool
  | .node .binary [_, op, _] =>
    (operatorAhead? op.tokens).any fun p => p.2 == Strength.compare
  | _ => false

/-- The right operand of an operator: a unary expression and all that binds to it more strongly. -/
def operand (structs : Bool) (strength : Nat) : Parser Tree := do
  let first ← rules (.unary structs)
  let rec grow : Nat → Tree → Parser Tree
    | 0, t => return t
    | n + 1, t => do
      let before := (← get).rest
      let next := strengthAhead before
      if strength < next || (next = strength && strength = Strength.assign) then
        let t' ← rules (.exprFrom t structs next)
        if (← get).rest.length = before.length then return t' else grow n t'
      else return t
  grow ((← get).rest.length + 1) first

/-- What ends a half-open range that has no upper end. -/
def endsHalfOpen (structs : Bool) (ts : List Token) : Bool :=
  ts.isEmpty || isOp "," ts || isOp ";" ts || (isOp "." ts && !isOp ".." ts) || isOp "?" ts
    || isOp "=>" ts || (!structs && isGroup .brace ts) || isOp "=" ts || isOp "+" ts
    || isOp "/" ts || isOp "%" ts || isOp "^" ts || isOp ">" ts || isOp "<=" ts || isOp "!=" ts
    || isOp "-=" ts || isOp "*=" ts || isOp "&=" ts || isOp "|=" ts || isOp "<<=" ts
    || isWord "as" ts

/-- The operator and the upper end of a range. -/
def rangeTail (start : Tree) (structs : Bool) : Parser Tree := do
  if ← peekOp "..=" then
    return .node .range [start, ← op "..=", ← rules (.operand structs Strength.range)]
  else if ← peekOp "..." then fail
  else
    let limits ← op ".."
    if ← peek (endsHalfOpen structs) then return .node .range [start, limits, .absent]
    else return .node .range [start, limits, ← rules (.operand structs Strength.range)]

/-- What may not follow a cast. -/
def followsCast (ts : List Token) : Bool :=
  (isOp "." ts && !isOp ".." ts) || isOp "?" ts || isGroup .bracket ts || isGroup .paren ts

/-- All operators from `base` on that follow `left`. -/
def exprFrom (left : Tree) (structs : Bool) (base : Nat) : Parser Tree := do
  let rec grow : Nat → Tree → Parser Tree
    | 0, t => return t
    | n + 1, t => do
      if t.isKind .range then return t
      let ts := (← get).rest
      match operatorAhead? ts with
      | some (signs, strength) =>
        if strength < base then return t
        else if strength = Strength.compare && isComparison t then fail
        else
          let o ← op signs
          grow n (.node .binary [t, o, ← rules (.operand structs strength)])
      | none =>
        if base ≤ Strength.assign && isPlainAssign ts then
          let o ← op "="
          grow n (.node .assign [t, o, ← rules (.operand structs Strength.assign)])
        else if base ≤ Strength.range && isOp ".." ts then
          grow n (← rangeTail rules t structs)
        else if base ≤ Strength.cast && isWord "as" ts then
          let as' ← keyword "as"
          let ty ← rules (.type false)
          if ← peek followsCast then fail
          grow n (.node .cast [t, as', ty])
        else return t
  grow ((← get).rest.length + 1) left

def expr (structs : Bool) : Parser Tree := do
  rules (.exprFrom (← rules (.unary structs)) structs Strength.lowest)

/-! ## Trailers -/

def arguments : Parser Tree := group .paren (commaList (rules (.expr true)))

/-- The fields that the literal ahead names, and whether a point is left of it. -/
def indexesAhead? : List Token → Option (List Nat × Bool)
  | .literal text _ :: _ => Literal.indexes? text
  | _ => none

/-- Fields of an expression by their indexes, the first one first. -/
def indexFields (e : Tree) (indexes : List Nat) : Tree :=
  indexes.foldl (fun e n => .node .field [e, .run (operator "."), indexTree n]) e

/-- A named field, a call of a method, or the word `await`, after its point. -/
def namedTrailer (e dot : Tree) : Parser Tree := do
  if ← peekWord "await" then return .node .await [e, dot, ← anyWord]
  else
    let name ← ident
    let turbofish ← if ← peekOp "::" then angleArgs rules else pure .absent
    if !turbofish.isAbsent || (← peekGroup .paren) then
      return .node .methodCall [e, dot, name, turbofish, ← arguments rules]
    else return .node .field [e, dot, name]

/-- What follows a point. A number may end in the point of what follows it. -/
def afterPoint (e dot : Tree) : Parser Tree := do
  match indexesAhead? (← get).rest with
  | none => namedTrailer rules e dot
  | some (indexes, pointLeft) =>
    let _ ← raw 1
    let e := indexFields e indexes
    if !pointLeft then return e
    else match indexAhead? (← get).rest with
      | some n =>
        let _ ← raw 1
        return indexFields e [n]
      | none => namedTrailer rules e (.run (operator "."))

/-- Fields, calls and indexes after an expression. -/
def trailers (first : Tree) : Parser Tree := do
  let rec grow : Nat → Tree → Parser Tree
    | 0, t => return t
    | n + 1, t => do
      let ts := (← get).rest
      if isGroup .paren ts then grow n (.node .call [t, ← arguments rules])
      else if isOp "." ts && !isOp ".." ts && !t.isKind .range then
        let dot ← op "."
        grow n (← afterPoint rules t dot)
      else if isGroup .bracket ts then
        grow n (.node .index [t, ← group .bracket do return [← rules (.expr true)]])
      else if isOp "?" ts && !t.isKind .range then grow n (.node .tryExpr [t, ← op "?"])
      else return t
  grow ((← get).rest.length + 1) first

/-! ## Single expressions -/

/-- An expression with attributes. Kept tokens take none. A range gets parentheses, without which
the attributes would be those of its lower end. -/
def withAttributes (attrs e : Tree) : Tree :=
  if attrs.parts.isEmpty || e.isKind .verbatim then e
  else .node .attributed
    [attrs, if e.isKind .range then .node .paren [.group .paren [e] {} {}] else e]

/-- Attributes in front of operators belong to the first operand. -/
def withAttributesFirst (attrs : Tree) : Tree → Tree
  | .node .assign [left, op, right] => .node .assign [withAttributesFirst attrs left, op, right]
  | .node .binary [left, op, right] => .node .binary [withAttributesFirst attrs left, op, right]
  | .node .cast [e, as', ty] => .node .cast [withAttributesFirst attrs e, as', ty]
  | e => withAttributes attrs e

/-- A field of a structure literal, or the dots before the structure that gives the rest. -/
def structField : Parser Tree := do
  if ← peekOp ".." then
    let dots ← op ".."
    if ← atEnd then return .node .rest [dots, .absent]
    else
      let base ← rules (.expr true)
      if ← atEnd then return .node .rest [dots, base] else fail
  let attrs ← outerAttributes rules
  let name ← member
  if (← peekOp ":") || !isNamed name then
    return .node .fieldValue [attrs, name, ← op ":", ← rules (.expr true)]
  else return .node .fieldValue [attrs, name, .absent, .absent]

def structAfter (base : Tree) : Parser Tree := do
  return .node .structExpr [base, ← group .brace (commaList (structField rules))]

def pathExpr (structs : Bool) : Parser Tree := do
  let base ← selfPath rules true
  if base.isKind .path && (← peek fun ts => isOp "!" ts && !isOp "!=" ts) && isModStyle base then
    invocationAfter base
  else if structs && (← peekGroup .brace) then structAfter rules base
  else return .node .pathExpr [base]

def parenOrTuple : Parser Tree := do
  let body ← group .paren (commaList (rules (.expr true)))
  return .node (if body.parts.length = 1 then .paren else .tuple) [body]

def arrayOrRepeat : Parser Tree := do
  let body ← group .bracket do
    if ← atEnd then return []
    let first ← rules (.expr true)
    if ← peekOp ";" then return [first, ← op ";", ← rules (.expr true)]
    else if ← atEnd then return [first]
    else
      let comma ← op ","
      return first :: comma :: (← commaList (rules (.expr true)))
  match body.parts with
  | [_, sep, _] => return .node (if isOp ";" sep.tokens then .repeated else .array) [body]
  | _ => return .node .array [body]

def closureParam : Parser Tree := do
  let attrs ← outerAttributes rules
  let pat ← rules .pattern
  if ← peekOp ":" then return .node .patTyped [attrs, pat, ← op ":", ← rules (.type true)]
  else return withAttributes attrs pat

def closure (structs : Bool) : Parser Tree := do
  let bound ← forParams? rules
  let const ← keyword? "const"
  let static ← keyword? "static"
  let async ← keyword? "async"
  let move ← keyword? "move"
  let words : Tree := .run (const.tokens ++ static.tokens ++ async.tokens ++ move.tokens)
  let bar ← op "|"
  let params ← separated (isOp "|") (closureParam rules) ","
  let bar' ← op "|"
  let result ← result rules true
  let body ← if result.isAbsent then rules (.expr structs)
    else do pure (.node .blockExpr [.absent, ← rules (.block false)])
  return .node .closure [bound, words, bar, .node .bounds params, bar', result, body]

/-- Whether an expression may start here. -/
def startsExpr (ts : List Token) : Bool :=
  (isAnyWord ts && !isWord "as" ts) || isGroup .paren ts || isGroup .bracket ts || isGroup .brace ts
    || isLiteralToken ts || (isOp "!" ts && !isOp "!=" ts)
    || (isOp "-" ts && !isOp "-=" ts && !isOp "->" ts) || (isOp "*" ts && !isOp "*=" ts)
    || (isOp "|" ts && !isOp "|=" ts) || (isOp "&" ts && !isOp "&=" ts) || isOp ".." ts
    || (isOp "<" ts && !isOp "<=" ts && !isOp "<<=" ts) || isOp "::" ts || isLifetime ts
    || isOp "#" ts

def breakExpr (structs : Bool) : Parser Tree := do
  let word ← keyword "break"
  let l ← lifetime?
  if !l.isAbsent && (← peekOp ":") then fail
  if ← peek fun ts => startsExpr ts && (structs || !isGroup .brace ts) then
    return .node .breakExpr [word, l, ← rules (.expr true)]
  else return .node .breakExpr [word, l, .absent]

/-- A word and an expression, if one may start after it. -/
def wordAndExpr (kind : Kind) (w : String) : Parser Tree := do
  let word ← keyword w
  if ← peek startsExpr then return .node kind [word, ← rules (.expr true)]
  else return .node kind [word, .absent]

def letExpr (structs : Bool) : Parser Tree := do
  let word ← keyword "let"
  let pat ← rules .patterns
  let eq ← op "="
  let first ← rules (.unary structs)
  return .node .letExpr [word, pat, eq, ← rules (.exprFrom first structs Strength.compare)]

def ifExpr : Parser Tree := do
  let word ← keyword "if"
  let cond ← rules (.expr false)
  let body ← rules (.block false)
  if ← peekWord "else" then
    let else' ← keyword "else"
    if ← peekWord "if" then
      return .node .ifExpr [word, cond, body, else', ← rules .conditional]
    else
      return .node .ifExpr
        [word, cond, body, else', .node .blockExpr [.absent, ← rules (.block false)]]
  else return .node .ifExpr [word, cond, body, .absent, .absent]

def whileLoop (label : Tree) : Parser Tree := do
  return .node .whileLoop
    [label, ← keyword "while", ← rules (.expr false), ← rules (.block true)]

def forLoop (label : Tree) : Parser Tree := do
  return .node .forLoop
    [label, ← keyword "for", ← rules .patterns, ← keyword "in", ← rules (.expr false),
     ← rules (.block true)]

def loop (label : Tree) : Parser Tree := do
  return .node .loop [label, ← keyword "loop", ← rules (.block true)]

def labeled : Parser Tree := do
  let l ← lifetime
  let label : Tree := .node .label [l, ← op ":"]
  if ← peekWord "while" then whileLoop rules label
  else if ← peekWord "for" then forLoop rules label
  else if ← peekWord "loop" then loop rules label
  else if ← peekGroup .brace then return .node .blockExpr [label, ← rules (.block true)]
  else fail

/-- Whether an expression needs a semicolon or a comma after it. -/
def needsComma (e : Tree) : Bool :=
  match e with
  | .node .attributed [_, inner] => !endsItself inner
  | e => !endsItself e
where
  endsItself (e : Tree) : Bool :=
    e.isKind .ifExpr || e.isKind .matchExpr || e.isKind .blockExpr || e.isKind .guardedBlock
      || e.isKind .whileLoop || e.isKind .loop || e.isKind .forLoop || e.isKind .tryBlock
      || e.isKind .constBlock

def arm : Parser Tree := do
  let attrs ← outerAttributes rules
  let pat ← rules .patterns
  let if' ← keyword? "if"
  let guard ← if if'.isAbsent then pure .absent else rules (.expr true)
  let arrow ← op "=>"
  let body ← rules .blockLike
  let comma ← if needsComma body && !(← atEnd) then op "," else op? ","
  return .node .arm [attrs, pat, if', guard, arrow, body, comma]

def matchExpr : Parser Tree := do
  let word ← keyword "match"
  let scrutinee ← rules (.expr false)
  let body ← group .brace do
    let attrs ← innerAttributes rules
    return attrs :: (← manyUntil List.isEmpty (arm rules))
  return .node .matchExpr [word, scrutinee, body]

/-- Whether `for` starts a loop rather than a closure with parameters bound in front. -/
def startsForLoop (ts : List Token) : Bool := isWord "for" ts && !opensGenerics (skip ts)

def startsClosure (ts : List Token) : Bool :=
  let next := skip ts
  isOp "|" ts || isWord "move" ts || (isWord "for" ts && opensGenerics next)
    || (isWord "const" ts && !isGroup .brace next) || isWord "static" ts
    || (isWord "async" ts && (isOp "|" next || isWord "move" next))

/-- An expression that hands over to another function for good. It keeps its tokens. -/
def become : Parser Tree := verbatim do
  let _ ← keyword "become"
  rules (.expr true)

/-- An expression without operators and trailers. -/
def atom (structs : Bool) : Parser Tree := do
  let ts := (← get).rest
  let next := skip ts
  if ← peekLiteral then literal
  else if isWord "async" ts
      && (isGroup .brace next || (isWord "move" next && isGroup .brace (skip next))) then
    return .node .asyncBlock [← anyWord, ← keyword? "move", ← rules (.block false)]
  else if isWord "try" ts && isGroup .brace next then
    return .node .tryBlock [← anyWord, ← rules (.block false)]
  else if startsClosure ts then closure rules structs
  else if startsBuiltin ts then builtinCall
  else if startsPath ts || (isWord "try" ts && (isOp "!" next || isOp "::" next)) then
    pathExpr rules structs
  else if isGroup .paren ts then parenOrTuple rules
  else if isWord "break" ts then breakExpr rules structs
  else if isWord "continue" ts then return .node .continueExpr [← anyWord, ← lifetime?]
  else if isWord "return" ts then wordAndExpr rules .returnExpr "return"
  else if isWord "become" ts then become rules
  else if isGroup .bracket ts then arrayOrRepeat rules
  else if isWord "let" ts then letExpr rules structs
  else if isWord "if" ts then ifExpr rules
  else if isWord "while" ts then whileLoop rules .absent
  else if isWord "for" ts then forLoop rules .absent
  else if isWord "loop" ts then loop rules .absent
  else if isWord "match" ts then matchExpr rules
  else if isWord "yield" ts then wordAndExpr rules .yieldExpr "yield"
  else if isWord "unsafe" ts then return .node .guardedBlock [← anyWord, ← rules (.block true)]
  else if isWord "const" ts then return .node .constBlock [← anyWord, ← rules (.block true)]
  else if isGroup .brace ts then return .node .blockExpr [.absent, ← rules (.block true)]
  else if isOp ".." ts then rangeTail rules .absent structs
  else if isWord "_" ts then return .node .infer [← anyWord]
  else if isLifetime ts then labeled rules
  else fail

/-- An expression without binary operators; `none` for one that keeps its tokens, together with its
attributes. -/
def unary? (structs : Bool) : Parser (Option Tree) := do
  let attrs ← outerAttributes rules
  let ts := (← get).rest
  if isOp "&" ts then
    let amp ← op "&"
    let next := skip (← get).rest
    if (← peekWord "raw") && (isWord "mut" next || isWord "const" next) then
      let raw' ← anyWord
      let access ← anyWord
      return withAttributes attrs
        (.node .rawAddress [amp, raw', access, ← rules (.unary structs)])
    let mut' ← keyword? "mut"
    return withAttributes attrs (.node .reference [amp, mut', ← rules (.unary structs)])
  else if isOp "*" ts || isOp "!" ts || isOp "-" ts then
    let o ← if isOp "*" ts then op "*" else if isOp "!" ts then op "!" else op "-"
    return withAttributes attrs (.node .unary [o, ← rules (.unary structs)])
  else
    let e ← trailers rules (← atom rules structs)
    if e.isKind .verbatim then return none
    if !attrs.parts.isEmpty && e.isKind .range then fail
    return withAttributes attrs e

def unary (structs : Bool) : Parser Tree := orVerbatim (unary? rules structs)

/-- An expression that ends after a block where a statement would; a trailer or an operator after
a trailer carries it on. -/
def blockLike : Parser Tree := do
  let attrs ← outerAttributes rules
  let ts := (← get).rest
  let next := skip ts
  if isWord "if" ts || isWord "while" ts || startsForLoop ts || isWord "loop" ts || isWord "match" ts
      || (isWord "try" ts && isGroup .brace next) || isWord "unsafe" ts
      || (isWord "const" ts && isGroup .brace next) || isGroup .brace ts || isLifetime ts then
    let e ← atom rules true
    if ← peek fun ts => (isOp "." ts && !isOp ".." ts) || isOp "?" ts then
      rules (.exprFrom (withAttributes attrs (← trailers rules e)) true Strength.lowest)
    else return withAttributes attrs e
  else
    let e ← rules (.unary true)
    if e.isKind .range then return withAttributes attrs e
    else rules (.exprFrom (withAttributes attrs e) true Strength.lowest)

/-! ## Statements -/

/-- Whether an item starts here rather than an expression. -/
def startsItem (ts : List Token) : Bool :=
  let next := skip ts
  let after := skip next
  isWord "pub" ts || (isWord "crate" ts && !isOp "::" next) || isWord "extern" ts
    || isWord "use" ts
    || (isWord "static" ts && (isWord "mut" next || isIdent next))
    || (isWord "const" ts && !(isGroup .brace next || isWord "static" next
        || (isWord "async" next
            && !(isWord "unsafe" after || isWord "extern" after || isWord "fn" after))
        || isWord "move" next || isOp "|" next))
    || (isWord "unsafe" ts && !isGroup .brace next)
    || (isWord "async" ts && (isWord "unsafe" next || isWord "extern" next || isWord "fn" next))
    || isWord "fn" ts || isWord "mod" ts || isWord "type" ts || isWord "struct" ts
    || isWord "enum" ts || (isWord "union" ts && isIdent next)
    || (isWord "auto" ts && isWord "trait" next) || isWord "trait" ts
    || (isWord "default" ts && (isWord "unsafe" next || isWord "impl" next))
    || isWord "impl" ts || isWord "macro" ts

/-- A statement that declares a local variable, after its attributes. -/
def localStmt (attrs : Tree) : Parser Tree := do
  let word ← keyword "let"
  let pat ← rules .pattern
  let pat ← if ← peekOp ":" then
      pure (.node .patTyped [.node .attributes [], pat, ← op ":", ← rules (.type true)])
    else pure pat
  let eq ← op? "="
  let value ← if eq.isAbsent then pure .absent else rules (.expr true)
  let endsInBrace := match value.tokens.getLast? with
    | some (.group .brace _ _ _) => true
    | _ => false
  let else' ← if !eq.isAbsent && !endsInBrace then keyword? "else" else pure .absent
  let diverge ← if else'.isAbsent then pure .absent else rules (.block false)
  return .node .localStmt [attrs, word, pat, eq, value, else', diverge, ← op ";"]

/-- A macro call that stands as a statement: what follows the path is read with it. -/
inductive CallShape where
  | item
  | braces
  | other

/-- How a macro call at the start of a statement is read. -/
def callShape (ts : List Token) : CallShape :=
  match plainPath ⟨ts, {}⟩ with
  | .ok (_, c) =>
    if isOp "!" c.rest then
      let next := skip c.rest
      let after := skip next
      if isIdent next || isWord "try" next then .item
      else if isGroup .brace next && !((isOp "." after && !isOp ".." after) || isOp "?" after) then
        .braces
      else .other
    else .other
  | .error _ => .other

def statement : Parser Tree := do
  let start ← get
  let attrs ← outerAttributes rules
  let ts := (← get).rest
  match callShape ts with
  | .braces =>
    let call ← invocationAfter (← plainPath)
    return .node .callStmt [attrs, call, ← op? ";"]
  | shape =>
    let isItem := match shape with
      | .item => true
      | _ => startsItem ts
    if isWord "let" ts then localStmt rules attrs
    else if isItem then
      set start
      return .node .itemStmt [← rules .item]
    else
      let e ← rules .blockLike
      let semi ← op? ";"
      match e with
      | .node .invocation [p, bang, body] =>
        let braces := isGroup .brace body.tokens
        if !semi.isAbsent || braces then
          return .node .callStmt [attrs, .node .invocation [p, bang, body], semi]
        else return .node .exprStmt [withAttributes attrs e, semi]
      | _ => return .node .exprStmt [withAttributesFirst attrs e, semi]

/-- Whether a statement has to be the last one, because no semicolon ends it. -/
def needsSemicolon : Tree → Bool
  | .node .exprStmt [e, semi] => semi.isAbsent && needsComma e
  | _ => false

/-- The statements of a block. -/
def statements : Parser (List Tree) :=
  repeating do
    if ← peekOp ";" then return some [.node .emptyStmt [← op ";"]]
    if ← atEnd then return none
    let s ← statement rules
    if needsSemicolon s && !(← atEnd) then fail
    return some [s]

/-- A block; `inner` allows attributes of its own at the start. -/
def block (inner : Bool) : Parser Tree := do
  return .node .block [← group .brace do
    let attrs ← if inner then innerAttributes rules else pure (.node .attributes [])
    return attrs :: (← statements rules)]

end TypedSettings.Source.Grammar
