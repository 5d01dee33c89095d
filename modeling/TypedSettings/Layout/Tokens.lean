import TypedSettings.Layout.Document
import TypedSettings.Source.Token

/-!
The layout of tokens that form no tree: what a macro call or an attribute holds in its brackets.
A blank is put where the tokens around a place call for one. What a macro definition matches is set
more closely than other tokens, because each of its variables has a sort after a colon.
-/

namespace TypedSettings.Layout

open Source

/-! ## Tokens of macro calls -/

/-- What stands before a token. -/
inductive Before where
  | start
  | dollar
  /-- a variable that may have a sort -/
  | dollarName
  | dollarNameColon
  | dollarParen
  | dollarSeparator
  | pound
  | poundBang
  | dot
  | colon
  | colons
  /-- a name or a literal -/
  | name
  | nameBang
  /-- a group in parentheses or brackets -/
  | enclosed
  | other
deriving DecidableEq, Repr

/-- Words that a blank follows. -/
def spacedWords : List String :=
  ["as", "async", "await", "box", "break", "const", "continue", "crate", "dyn", "else", "enum",
   "extern", "fn", "for", "if", "impl", "in", "let", "loop", "macro", "match", "mod", "move",
   "mut", "pub", "ref", "return", "static", "struct", "trait", "type", "unsafe", "use", "where",
   "while", "yield"]

/-- Whether a token is set apart from the one before it, and what it is to the next. In `matcher`
tokens, a variable may have a sort, and a point is a sign as any other. -/
def spacing (matcher : Bool) (before : Before) (t : Token) : Bool × Before :=
  match before, t with
  | .dollar, .word _ _ => (false, if matcher then .dollarName else .name)
  | .dollarName, .sign ':' false _ => (false, .dollarNameColon)
  | .dollarNameColon, .word _ _ => (false, .other)
  | .dollarParen, .sign '+' false _ => (false, .other)
  | .dollarParen, .sign '*' false _ => (false, .other)
  | .dollarParen, .sign '?' false _ => (false, .other)
  | .dollarParen, .word _ _ => (false, .dollarSeparator)
  | .dollarParen, .literal _ _ => (false, .dollarSeparator)
  | .dollarParen, .sign _ joint _ => (false, if joint then .dollarParen else .dollarSeparator)
  | .dollarSeparator, .sign '+' _ _ => (false, .other)
  | .dollarSeparator, .sign '*' _ _ => (false, .other)
  | .pound, .sign '!' _ _ => (false, .poundBang)
  | .dollar, .group .paren _ _ _ => (false, .dollarParen)
  | .pound, .group .bracket _ _ _ => (false, .other)
  | .poundBang, .group .bracket _ _ _ => (false, .other)
  | .name, .sign '!' false _ => (false, .nameBang)
  | .colon, .sign ':' _ _ => (false, .colons)
  | _, .group .brace _ _ _ => (true, .other)
  | .name, .group _ _ _ _ => (false, .enclosed)
  | .nameBang, .group _ _ _ _ => (false, .other)
  | _, .group _ _ _ _ => (true, .enclosed)
  | _, .word w _ =>
    if spacedWords.contains w then (true, .other)
    else (before != .dot && before != .colons, .name)
  | _, .literal l _ => (before != .dot, if l.toList.getLast? = some '.' then .other else .name)
  | _, .sign ',' _ _ => (false, .other)
  | _, .sign ';' _ _ => (false, .other)
  | _, .sign '.' _ _ =>
    if matcher then (true, .other) else (before != .name && before != .enclosed, .dot)
  | _, .sign ':' true _ => (before != .name, .colon)
  | _, .sign '$' _ _ => (true, .dollar)
  | _, .sign '#' _ _ => (true, .pound)
  | _, .sign _ _ _ => (true, .other)

/-- Whether nothing comes between a token and the next. -/
def isJoined : Token → Bool
  | .sign '$' _ _ => true
  | .sign _ joint _ => joint
  | _ => false

def isDot : Token → Bool
  | .sign '.' _ _ => true
  | _ => false

def opening : Delimiter → String
  | .paren => "("
  | .bracket => "["
  | .brace => "\x7b"

def closing : Delimiter → String
  | .paren => ")"
  | .bracket => "]"
  | .brace => "\x7d"

mutual

def freeToken (matcher : Bool) : Token → List Doc
  | .word w _ => word w
  | .sign c _ _ => word c.toString
  | .literal l _ => word l
  | .group d body _ _ =>
    let inside := if d = .brace && !body.isEmpty then space else []
    word (opening d) ++ inside ++ freeTokens matcher .start true body ++ inside
      ++ word (closing d)

/-- Tokens with gaps between them; `joined` says that none comes before the first. -/
def freeTokens (matcher : Bool) (before : Before) (joined : Bool) : List Token → List Doc
  | [] => []
  | t :: ts =>
    let (spaced, next) := spacing matcher before t
    (if joined then [] else if spaced then space else if isDot t then cut else [])
      ++ freeToken matcher t ++ freeTokens matcher next (isJoined t) ts

end

/-! ## Tokens of attributes -/

/-- Whether a list of tokens ends in a comma. -/
def endsInComma (ts : List Token) : Bool :=
  match ts.getLast? with
  | some (.sign ',' _ _) => true
  | _ => false

/-- A group of an attribute around what is set inside. One in parentheses may take several
lines. -/
def attributeGroup (d : Delimiter) (body : List Token) (inner : List Doc) : List Doc :=
  match d with
  | .paren =>
    word "(" ++ uniform step (outdent (cut ++ inner ++ (if endsInComma body then [] else cut)))
      ++ word ")"
  | d => word (opening d) ++ inner ++ word (closing d)

/-- Whether a token is a word or a literal. -/
def isWordOrLiteral : Token → Bool
  | .word _ _ => true
  | .literal _ _ => true
  | _ => false

mutual

/-- A token in a group of an attribute; `afterWord` says that a word or a literal comes before. -/
def attributeToken (afterWord last : Bool) : Token → List Doc
  | .word w _ => (if afterWord then space else []) ++ word w
  | .literal l _ => (if afterWord then space else []) ++ word l
  | .sign c _ _ =>
    if c = ',' && last then comma true
    else (if afterWord && c = '=' then word " " else []) ++ word c.toString
      ++ (if c = '=' then word " " else if c = ',' then space else [])
  | .group d body _ _ => attributeGroup d body (attributeTokens false body)

/-- Tokens in a group of an attribute. -/
def attributeTokens (afterWord : Bool) : List Token → List Doc
  | [] => []
  | t :: ts => attributeToken afterWord ts.isEmpty t ++ attributeTokens (isWordOrLiteral t) ts

end

end TypedSettings.Layout
