import TypedSettings.Text.CharClass

/-!
Token trees: the words, signs, literals and bracketed groups that source text is made of, and the
text they are shown as.
-/

namespace TypedSettings.Source

/-- A place in a text. Lines and columns start at 1; columns count characters. -/
structure Position where
  line : Nat := 1
  column : Nat := 1
deriving DecidableEq, Repr, Inhabited

def Position.text (p : Position) : String := toString p.line ++ ":" ++ toString p.column

inductive Delimiter where
  | paren
  | bracket
  | brace
deriving DecidableEq, Repr

/-- A token tree. A sign is one character; it is `joint` when the next token is a sign that
follows without a gap, so that `::` is a joint colon and a colon. -/
inductive Token where
  | word (text : String) (pos : Position)
  | sign (char : Char) (joint : Bool) (pos : Position)
  | literal (text : String) (pos : Position)
  | group (delim : Delimiter) (body : List Token) (pos close : Position)
deriving Repr

namespace Token

/-- Where a token starts. -/
def pos : Token → Position
  | word _ p => p
  | sign _ _ p => p
  | literal _ p => p
  | group _ _ p _ => p

mutual

/-- The number of tokens in a tree, each bracket pair counted as one. -/
def size : Token → Nat
  | group _ body _ _ => count body + 1
  | _ => 1

/-- The number of tokens in a list of trees. -/
def count : List Token → Nat
  | [] => 0
  | t :: rest => size t + count rest

end

/-! ## Token text -/

/-- Whether a token is a sign that the next one follows without a gap. -/
def isJoint : Token → Bool
  | sign _ joint _ => joint
  | _ => false

mutual

/-- The text of one token. -/
def shown : Token → String
  | word w _ => w
  | sign c _ _ => c.toString
  | literal l _ => l
  | group .paren body _ _ => "(" ++ textFrom true body ++ ")"
  | group .bracket body _ _ => "[" ++ textFrom true body ++ "]"
  | group .brace body _ _ =>
    "\x7b " ++ textFrom true body ++ (if body.isEmpty then "" else " ") ++ "\x7d"

/-- Tokens are separated by one space; nothing follows a joint sign. `glued` says that the first
token follows a joint sign or an opening. -/
def textFrom (glued : Bool) : List Token → String
  | [] => ""
  | t :: rest => (if glued then "" else " ") ++ shown t ++ textFrom (isJoint t) rest

end

/-- The text a token list is shown as. -/
def text (ts : List Token) : String := textFrom true ts

/-! ## Building tokens -/

/-- The signs of an operator, joined to each other. -/
def operatorAt (pos : Position) : List Char → List Token
  | [] => []
  | [c] => [sign c false pos]
  | c :: rest => sign c true pos :: operatorAt pos rest

/-- An operator such as `->` that stands in no source text. -/
def operator (op : String) : List Token := operatorAt {} op.toList

/-- A word that stands in no source text. -/
def name (w : String) : Token := word w {}

/-- A group that stands in no source text. -/
def delimited (d : Delimiter) (body : List Token) : Token := group d body {} {}

/-- Puts `sep` between the parts. -/
def separate (sep : List Token) : List (List Token) → List Token
  | [] => []
  | [part] => part
  | part :: rest => part ++ sep ++ separate sep rest

/-- A piece of code: an operator when it starts with a sign, a literal when it starts with a quote
or a digit, a word otherwise. -/
def piece (s : String) : List Token :=
  match s.toList with
  | [] => []
  | c :: _ =>
    if c = '"' ∨ Text.isAsciiDigit c then [literal s {}]
    else if Text.isIdentStart c then [name s]
    else operator s

/-- Code made of pieces in order. -/
def code (pieces : List String) : List Token := pieces.flatMap piece

/-- Arguments in parentheses, with commas between them. -/
def arguments (args : List (List Token)) : List Token :=
  [delimited .paren (separate (operator ",") args)]

/-! ## Looking ahead -/

/-- Whether the list starts with the signs of `op`, each joined to the next. -/
def startsWithOp : List Char → List Token → Bool
  | [], _ => true
  | [c], sign d _ _ :: _ => c == d && d != '\''
  | c :: op, sign d joint _ :: rest => c == d && d != '\'' && joint && startsWithOp op rest
  | _, _ => false

def isOp (op : String) (ts : List Token) : Bool := startsWithOp op.toList ts

def isWord (w : String) : List Token → Bool
  | word v _ :: _ => v == w
  | _ => false

def isAnyWord : List Token → Bool
  | word _ _ :: _ => true
  | _ => false

/-- Words that name nothing by themselves. -/
def keywords : List String :=
  ["_", "abstract", "as", "async", "await", "become", "box", "break", "const", "continue", "crate",
   "do", "dyn", "else", "enum", "extern", "false", "final", "fn", "for", "if", "impl", "in", "let",
   "loop", "macro", "match", "mod", "move", "mut", "override", "priv", "pub", "ref", "return",
   "Self", "self", "static", "struct", "super", "trait", "true", "try", "type", "typeof", "unsafe",
   "unsized", "use", "virtual", "where", "while", "yield"]

def isKeyword (w : String) : Bool := keywords.contains w

def isIdent : List Token → Bool
  | word w _ :: _ => !isKeyword w
  | _ => false

def isLifetime : List Token → Bool
  | sign '\'' _ _ :: word _ _ :: _ => true
  | _ => false

def isGroup (d : Delimiter) : List Token → Bool
  | group e _ _ _ :: _ => d == e
  | _ => false

def isLiteralToken : List Token → Bool
  | literal _ _ :: _ => true
  | _ => false

/-- The list after its first token; a lifetime counts as one. -/
def skip : List Token → List Token
  | sign '\'' _ _ :: word _ _ :: rest => rest
  | _ :: rest => rest
  | [] => []

end Token

end TypedSettings.Source
