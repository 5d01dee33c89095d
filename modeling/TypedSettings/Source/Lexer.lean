import TypedSettings.Source.Literal
import TypedSettings.Source.Token
import TypedSettings.Text.Quoted

/-!
From text to token trees. Blanks and comments separate tokens and vanish, except that a
documentation comment becomes the attribute `#[doc = "…"]`.
-/

namespace TypedSettings.Source

open TypedSettings.Text

/-- The position after a character. -/
def Position.next (p : Position) (c : Char) : Position :=
  if c = '\n' then ⟨p.line + 1, 1⟩ else ⟨p.line, p.column + 1⟩

/-- The position after a text. -/
def Position.after (p : Position) (cs : List Char) : Position := cs.foldl Position.next p

namespace Lexer

/-- What is left of a text, and where it starts. -/
structure Input where
  rest : List Char
  pos : Position

def Input.drop (i : Input) (n : Nat) : Input := ⟨i.rest.drop n, i.pos.after (i.rest.take n)⟩

/-! ## Comments and blanks -/

/-- The length of a line, without the line end. -/
def lineLength : Nat → List Char → Nat
  | n, [] => n
  | n, '\n' :: _ => n
  | n, '\r' :: '\n' :: _ => n
  | n, _ :: rest => lineLength (n + 1) rest

/-- The length of a block comment that may hold others; `depth` of them are open. -/
def blockLength? : Nat → Nat → List Char → Option Nat
  | depth, n, '/' :: '*' :: rest => blockLength? (depth + 1) (n + 2) rest
  | depth, n, '*' :: '/' :: rest =>
    if depth ≤ 1 then some (n + 2) else blockLength? (depth - 1) (n + 2) rest
  | depth, n, _ :: rest => blockLength? depth (n + 1) rest
  | _, _, [] => none

def isLineComment : List Char → Bool
  | '/' :: '/' :: '/' :: '/' :: _ => true
  | '/' :: '/' :: c :: _ => c != '/' && c != '!'
  | '/' :: '/' :: _ => true
  | _ => false

def isBlockComment : List Char → Bool
  | '/' :: '*' :: '*' :: '*' :: _ => true
  | '/' :: '*' :: '*' :: '/' :: _ => true
  | '/' :: '*' :: c :: _ => c != '*' && c != '!'
  | '/' :: '*' :: _ => true
  | _ => false

/-- Blanks between tokens: white space and the two direction marks. -/
def isGap (c : Char) : Bool := isBlank c || c.toNat == 0x200E || c.toNat == 0x200F

/-- The length of the blank or comment at the start of a text. -/
def gapLength? (cs : List Char) : Option Nat :=
  match cs with
  | [] => none
  | c :: _ =>
    if isGap c then some 1
    else if isLineComment cs then some (lineLength 0 cs)
    else match cs with
      | '/' :: '*' :: '*' :: '/' :: _ => some 4
      | _ => if isBlockComment cs then blockLength? 0 0 cs else none

/-! ## Documentation -/

/-- A documentation comment: its length, its text, and whether it speaks of what encloses it. -/
structure Doc where
  length : Nat
  text : List Char
  inner : Bool

/-- A carriage return stands in documentation only before a newline. -/
def hasBareReturn : List Char → Bool
  | [] => false
  | '\r' :: '\n' :: rest => hasBareReturn rest
  | c :: rest => c == '\r' || hasBareReturn rest

def lineDoc (inner : Bool) (body : List Char) : Doc :=
  let n := lineLength 0 body
  ⟨n + 3, body.take n, inner⟩

def blockDoc? (inner : Bool) (cs : List Char) : Option Doc :=
  (blockLength? 0 0 cs).map fun n => ⟨n, (cs.take (n - 2)).drop 3, inner⟩

def docShape? : List Char → Option Doc
  | '/' :: '/' :: '!' :: rest => some (lineDoc true rest)
  | '/' :: '*' :: '!' :: rest => blockDoc? true ('/' :: '*' :: '!' :: rest)
  | '/' :: '/' :: '/' :: '/' :: _ => none
  | '/' :: '/' :: '/' :: rest => some (lineDoc false rest)
  | '/' :: '*' :: '*' :: '*' :: _ => none
  | '/' :: '*' :: '*' :: rest => blockDoc? false ('/' :: '*' :: '*' :: rest)
  | _ => none

def doc? (cs : List Char) : Option Doc :=
  (docShape? cs).bind fun d => if hasBareReturn d.text then none else some d

/-- The attribute that a documentation comment stands for. -/
def Doc.tokens (d : Doc) (pos : Position) : List Token :=
  .sign '#' false pos
    :: (if d.inner then [.sign '!' false pos] else [])
    ++ [.group .bracket
          [.word "doc" pos, .sign '=' false pos,
           .literal (Quoted.encode (String.ofList d.text)) pos] pos pos]

/-! ## Single tokens -/

def isSignChar (c : Char) : Bool := "~!@#$%^&*-=+|;:,<.>/?'".toList.contains c

/-- A sign at the start of a text; a comment starts with none. -/
def sign? : List Char → Option Char
  | '/' :: '/' :: _ => none
  | '/' :: '*' :: _ => none
  | c :: _ => if isSignChar c then some c else none
  | [] => none

/-- An identifier, perhaps raw. Path words cannot be raw. -/
def scanWord? (cs : List Char) : Option Scan :=
  match cs with
  | 'r' :: '#' :: rest =>
    match scanIdent? rest with
    | some s =>
      if ["_", "super", "self", "Self", "crate"].contains (String.ofList (rest.take s.length)) then
        none
      else some ⟨s.length + 2, s.rest⟩
    | none => none
  | _ => scanIdent? cs

/-- A quote that starts a lifetime: an identifier follows, and no closing quote. -/
def startsLifetime (rest : List Char) : Bool :=
  match scanWord? rest with
  | none => false
  | some s =>
    match s.rest with
    | '\'' :: _ => false
    | '#' :: _ => ['r', '#'].isPrefixOf rest
    | _ => true

/-- A literal without a value: it stands where a literal could not be formed. -/
def errorMark : List Char := "(/*ERROR*/)".toList

/-- The starts of literals that are not words although a letter comes first. -/
def isQuotePrefix (cs : List Char) : Bool :=
  ["r\"", "r#\"", "r##", "b\"", "b'", "br\"", "br#", "c\"", "cr\"", "cr#"].any
    fun p => p.toList.isPrefixOf cs

/-- The token at the start of a text that is not a bracket. -/
def leaf? (i : Input) : Option (Token × Nat) :=
  match scanLiteral? i.rest with
  | some s => some (.literal (String.ofList (i.rest.take s.length)) i.pos, s.length)
  | none =>
    match sign? i.rest with
    | some '\'' =>
      if startsLifetime (i.rest.drop 1) then some (.sign '\'' true i.pos, 1) else none
    | some c => some (.sign c (sign? (i.rest.drop 1)).isSome i.pos, 1)
    | none =>
      if errorMark.isPrefixOf i.rest then
        some (.literal (String.ofList errorMark) i.pos, errorMark.length)
      else if isQuotePrefix i.rest then none
      else (scanWord? i.rest).map fun s =>
        (.word (String.ofList (i.rest.take s.length)) i.pos, s.length)

/-! ## Trees -/

/-- The group that a text opens. The mark of a missing literal opens none. -/
def openDelimiter? : List Char → Option Delimiter
  | [] => none
  | c :: rest =>
    if c = '(' then (if errorMark.isPrefixOf (c :: rest) then none else some .paren)
    else if c = '[' then some .bracket
    else if c.toNat = 0x7B then some .brace
    else none

def closeDelimiter? (c : Char) : Option Delimiter :=
  if c = ')' then some .paren
  else if c = ']' then some .bracket
  else if c.toNat = 0x7D then some .brace
  else none

/-- An open bracket: where it stands and the tokens before it, the last one first. -/
structure Frame where
  delim : Delimiter
  pos : Position
  before : List Token

/-- Reads tokens until the text ends. `done` holds the tokens since the last open bracket, the
last one first. Every round consumes a character, so the length of the text bounds `fuel`. -/
def run : (fuel : Nat) → Input → (done : List Token) → List Frame → Except Position (List Token)
  | 0, i, _, _ => .error i.pos
  | fuel + 1, i, done, stack =>
    match gapLength? i.rest with
    | some n => run fuel (i.drop n) done stack
    | none =>
      match doc? i.rest with
      | some d => run fuel (i.drop d.length) ((d.tokens i.pos).reverse ++ done) stack
      | none =>
        match i.rest with
        | [] =>
          match stack with
          | [] => .ok done.reverse
          | frame :: _ => .error frame.pos
        | c :: rest =>
          match openDelimiter? (c :: rest) with
          | some d => run fuel (i.drop 1) [] (⟨d, i.pos, done⟩ :: stack)
          | none =>
            match closeDelimiter? c with
            | some d =>
              match stack with
              | [] => .error i.pos
              | frame :: frames =>
                if frame.delim = d then
                  run fuel (i.drop 1) (.group d done.reverse frame.pos i.pos :: frame.before) frames
                else .error i.pos
            | none =>
              match leaf? i with
              | some (t, n) => run fuel (i.drop n) (t :: done) stack
              | none => .error i.pos

end Lexer

/-- The token trees of a text, or the place where it cannot be read. A byte order mark in front
is left out. -/
def tokenize (text : String) : Except Position (List Token) :=
  let cs := match text.toList with
    | c :: rest => if c.toNat = 0xFEFF then rest else c :: rest
    | [] => []
  Lexer.run (cs.length + 1) ⟨cs, {}⟩ [] []

end TypedSettings.Source
