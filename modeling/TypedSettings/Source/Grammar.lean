import TypedSettings.Source.Grammar.Items
import TypedSettings.Source.Lexer

/-!
The grammar as a whole. A rule is read to a depth: each time a production turns to a rule, the
depth goes down by one. No text nests deeper than a few levels for each of its tokens, so the depth
chosen here is never reached.
-/

namespace TypedSettings.Source

namespace Grammar

/-- The production of a rule, given a parser for every rule. -/
def production (rules : Rules) : Rule → Parser Tree
  | .type plus => type rules plus
  | .bound captures const => bound rules captures const
  | .expr structs => expr rules structs
  | .unary structs => unary rules structs
  | .exprFrom left structs base => exprFrom rules left structs base
  | .operand structs strength => operand rules structs strength
  | .blockLike => blockLike rules
  | .conditional => ifExpr rules
  | .pattern => pattern rules
  | .patterns => patterns rules
  | .block inner => block rules inner
  | .item => item rules
  | .field => namedField rules
  | .useTree root => useTree rules root

/-- Every rule, read to a depth. -/
def toDepth : Nat → Rules
  | 0 => fun _ => Parser.fail
  | depth + 1 => production (toDepth depth)

/-- A depth that is enough for a token list. -/
def depthFor (ts : List Token) : Nat := 16 * (Token.count ts + 4)

end Grammar

open Grammar

/-- Why a text cannot be read: it does not split into tokens, or the tokens form no tree. The
position is the place where reading stopped. -/
inductive SyntaxFault where
  | unlexable (pos : Position)
  | unexpected (pos : Position)
deriving DecidableEq, Repr

/-- Reads a whole token list by a parser. -/
def readTokens {α : Type} (p : Rules → Parser α) (ts : List Token) (close : Position := {}) :
    Except Position α :=
  Parser.runAll (p (toDepth (depthFor ts))) ts close

/-- Reads a whole text by a parser. -/
def readText {α : Type} (p : Rules → Parser α) (text : String) : Except SyntaxFault α :=
  match tokenize text with
  | .error pos => .error (.unlexable pos)
  | .ok ts =>
    match readTokens p ts with
    | .ok a => .ok a
    | .error pos => .error (.unexpected pos)

def readType (text : String) : Except SyntaxFault Tree := readText (fun r => r (.type true)) text

def readExpr (text : String) : Except SyntaxFault Tree := readText (fun r => r (.expr true)) text

/-- A path as it stands in a type. -/
def readPath (text : String) : Except SyntaxFault Tree := readText (fun r => path r false) text

def readLiteral (text : String) : Except SyntaxFault Literal :=
  readText (fun _ c => match Literal.read? c.rest with
    | some (l, rest) => .ok (l, { c with rest })
    | none => .error c.here) text

/-! ## Files -/

/-- Removes a byte order mark. -/
def withoutMark : List Char → List Char
  | c :: rest => if c.toNat = 0xFEFF then rest else c :: rest
  | [] => []

/-- Removes blanks and comments in front. -/
def skipGaps : (fuel : Nat) → List Char → List Char
  | 0, cs => cs
  | fuel + 1, cs =>
    match Lexer.gapLength? cs with
    | some n => skipGaps fuel (cs.drop n)
    | none => cs

/-- Removes a first line that names an interpreter; its line end stays. A first line that starts
an attribute is no such line. -/
def withoutInterpreter (cs : List Char) : List Char :=
  match cs with
  | '#' :: '!' :: rest =>
    match skipGaps (rest.length + 1) rest with
    | '[' :: _ => cs
    | _ => cs.dropWhile (· ≠ '\n')
  | _ => cs

/-- The attributes and the items of a source file. -/
def readFile (text : String) : Except SyntaxFault (List Tree) :=
  readText file (String.ofList (withoutInterpreter (withoutMark text.toList)))

end TypedSettings.Source
