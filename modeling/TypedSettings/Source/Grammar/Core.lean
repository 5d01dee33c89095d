import TypedSettings.Source.LiteralValue
import TypedSettings.Source.Tree

/-!
Reading trees from tokens. A parser works inside one bracket level: it takes tokens from the front,
and fails at a position, which is the next token or, when none is left, the closing bracket.

The grammar is recursive through its rules. A production is written against a parser for every
rule one level down, and `Source/Grammar` ties the levels together.
-/

namespace TypedSettings.Source

/-- The tokens left at one bracket level, and where the level closes. -/
structure Cursor where
  rest : List Token
  close : Position

def Cursor.here (c : Cursor) : Position :=
  match c.rest with
  | [] => c.close
  | t :: _ => t.pos

/-- Takes tokens from a cursor, or fails at a position. -/
abbrev Parser (α : Type) := StateT Cursor (Except Position) α

namespace Parser

variable {α : Type}

def fail : Parser α := fun c => .error c.here

/-- Whether the tokens ahead pass a test. -/
def peek (p : List Token → Bool) : Parser Bool := return p (← get).rest

def peekOp (op : String) : Parser Bool := peek (Token.isOp op)

def peekWord (w : String) : Parser Bool := peek (Token.isWord w)

def peekGroup (d : Delimiter) : Parser Bool := peek (Token.isGroup d)

def atEnd : Parser Bool := peek List.isEmpty

/-- Tries a parser; on failure nothing is taken. -/
def attempt (p : Parser α) : Parser (Option α) := fun c =>
  match p c with
  | .ok (a, c') => .ok (some a, c')
  | .error _ => .ok (none, c)

/-- Whether a parser would succeed; nothing is taken. -/
def succeeds (p : Parser α) : Parser Bool := fun c =>
  match p c with
  | .ok _ => .ok (true, c)
  | .error _ => .ok (false, c)

/-- Takes `n` tokens as they stand. -/
def raw (n : Nat) : Parser Tree := fun c =>
  .ok (.run (c.rest.take n), { c with rest := c.rest.drop n })

/-- Takes an operator; its signs are joined. -/
def op (s : String) : Parser Tree := do
  let c ← get
  if Token.isOp s c.rest then
    set { c with rest := c.rest.drop s.length }
    return .run (Token.operatorAt c.here s.toList)
  else fail

def op? (s : String) : Parser Tree := do
  if ← peekOp s then op s else return .absent

def keyword (w : String) : Parser Tree := do
  if ← peekWord w then raw 1 else fail

def keyword? (w : String) : Parser Tree := do
  if ← peekWord w then raw 1 else return .absent

/-- A word that is no keyword. -/
def ident : Parser Tree := do
  if ← peek Token.isIdent then raw 1 else fail

def anyWord : Parser Tree := do
  if ← peek Token.isAnyWord then raw 1 else fail

def lifetime : Parser Tree := fun c =>
  match c.rest with
  | .sign '\'' _ p :: .word w q :: rest =>
    .ok (.run [.sign '\'' true p, .word w q], { c with rest })
  | _ => fail c

def lifetime? : Parser Tree := do
  if ← peek Token.isLifetime then lifetime else return .absent

def peekLiteral : Parser Bool := peek fun ts => (Literal.read? ts).isSome

/-- A literal, which may be a truth value or carry a minus. -/
def literal : Parser Tree := fun c =>
  match Literal.read? c.rest with
  | some (l, rest) => .ok (.node .literal [.run l.tokens], { c with rest })
  | none => fail c

/-- A group whose whole content `inner` reads. -/
def group (d : Delimiter) (inner : Parser (List Tree)) : Parser Tree := fun c =>
  match c.rest with
  | .group e body pos close :: rest =>
    if d = e then
      match inner ⟨body, close⟩ with
      | .ok (trees, ⟨[], _⟩) => .ok (.group d trees pos close, { c with rest })
      | .ok (_, left) => .error left.here
      | .error p => .error p
    else fail c
  | _ => fail c

/-- A group of any sort, taken as it stands. -/
def rawGroup : Parser Tree := fun c =>
  match c.rest with
  | .group d body pos close :: rest => .ok (.run [.group d body pos close], { c with rest })
  | _ => fail c

/-- Repeats a step until it has nothing to add. Every step takes a token, so the tokens at hand
bound `fuel`. -/
def repeatFuel (step : Parser (Option (List Tree))) : (fuel : Nat) → Parser (List Tree)
  | 0 => return []
  | fuel + 1 => do
    match ← step with
    | none => return []
    | some ts => return ts ++ (← repeatFuel step fuel)

def repeating (step : Parser (Option (List Tree))) : Parser (List Tree) := fun c =>
  repeatFuel step (c.rest.length + 1) c

/-- Members separated by `sep`, which may also follow the last one, until the tokens ahead pass
`stop`. -/
def separated (stop : List Token → Bool) (member : Parser Tree) (sep : String) :
    Parser (List Tree) :=
  repeating do
    if ← peek stop then return none
    let t ← member
    if ← peek stop then return some [t]
    return some [t, ← op sep]

def chainedFuel (stop : List Token → Bool) (member : Parser Tree) (sep : String) :
    (fuel : Nat) → Parser (List Tree)
  | 0 => return []
  | fuel + 1 => do
    if ← peek stop then return []
    let t ← member
    if ← peekOp sep then return t :: (← op sep) :: (← chainedFuel stop member sep fuel)
    else return [t]

/-- Members separated by `sep`, which may also follow the last one. A member without `sep` after it
is the last. -/
def chained (stop : List Token → Bool) (member : Parser Tree) (sep : String) :
    Parser (List Tree) := fun c => chainedFuel stop member sep (c.rest.length + 1) c

/-- Members separated by commas that fill a group. -/
def commaList (member : Parser Tree) : Parser (List Tree) := separated List.isEmpty member ","

/-- One tree for each round, until the tokens ahead pass `stop`. -/
def manyUntil (stop : List Token → Bool) (member : Parser Tree) : Parser (List Tree) :=
  repeating do
    if ← peek stop then return none
    return some [← member]

/-- Reads a tree. Where a parser takes tokens without making a tree of them, they are kept as they
stand. -/
def orVerbatim (p : Parser (Option Tree)) : Parser Tree := fun c =>
  match p c with
  | .ok (some t, c') => .ok (t, c')
  | .ok (none, c') =>
    .ok (.node .verbatim [.run (c.rest.take (c.rest.length - c'.rest.length))], c')
  | .error e => .error e

/-- The tokens that a parser takes, as they stand. -/
def verbatim (p : Parser α) : Parser Tree := orVerbatim do
  let _ ← p
  return none

/-- Reads all of a token list. -/
def runAll (p : Parser α) (ts : List Token) (close : Position) : Except Position α :=
  match p ⟨ts, close⟩ with
  | .ok (a, ⟨[], _⟩) => .ok a
  | .ok (_, left) => .error left.here
  | .error e => .error e

end Parser

/-! ## Rules -/

/-- The rules through which the grammar is recursive. -/
inductive Rule where
  /-- a type; `plus` allows a list of bounds without brackets -/
  | type (plus : Bool)
  /-- a bound of a type; `capture` allows `use<…>`, `const` allows const bounds -/
  | bound (capture const : Bool)
  /-- an expression; without `structs` a brace does not start a structure literal -/
  | expr (structs : Bool)
  /-- an expression without binary operators -/
  | unary (structs : Bool)
  /-- what follows `left` up to operators weaker than `base` -/
  | exprFrom (left : Tree) (structs : Bool) (base : Nat)
  /-- the right operand of an operator of strength `strength` -/
  | operand (structs : Bool) (strength : Nat)
  /-- an expression that ends after a block where a statement would -/
  | blockLike
  /-- an `if` with its branches -/
  | conditional
  /-- a pattern without alternatives -/
  | pattern
  /-- a pattern with alternatives -/
  | patterns
  /-- a block in braces; `inner` allows attributes of its own -/
  | block (inner : Bool)
  | item
  /-- a field with a name -/
  | field
  /-- a tree of a use declaration; `root` allows a leading `::` in a group -/
  | useTree (root : Bool)

/-- A parser for every rule. -/
abbrev Rules := Rule → Parser Tree

end TypedSettings.Source
