import TypedSettings.Source.Literal
import TypedSettings.Source.Token

/-!
What a literal stands for. A literal keeps the tokens it was written with; its kind says what value
they have, as far as anything depends on it.
-/

namespace TypedSettings.Source

open TypedSettings.Text

inductive LiteralKind where
  | text (value : String)
  | bytes
  | nullEnded
  | byte
  | char
  | int (value : Int)
  | float
  | bool (value : Bool)
  | other
deriving DecidableEq, Repr

structure Literal where
  kind : LiteralKind
  suffix : String
  tokens : List Token
deriving Repr

/-! ## Strings -/

/-- The characters that a string gains when `c` is read in a state. -/
def CookedState.value (state : CookedState) (c : Char) : List Char :=
  let plain := if c = '\r' ∨ c = '\\' then [] else [c]
  match state with
  | .text => plain
  | .afterReturn => [c]
  | .escape =>
    if c = 'n' then ['\n']
    else if c = 'r' then ['\r']
    else if c = 't' then ['\t']
    else if c = '0' then [Char.ofNat 0]
    else if c = '\\' ∨ c = '\'' ∨ c = '"' then [c]
    else []
  | .hexSecond first => [Char.ofNat (first * 16 + (hexDigit? c).getD 0)]
  | .braceDigits value _ => if c.toNat = 0x7D then [Char.ofNat value] else []
  | .gap => if c = ' ' ∨ c = '\t' ∨ c = '\n' then [] else plain
  | _ => []

/-- The value of a cooked string after its opening quote, and what follows its closing quote. -/
def cookedValue : CookedState → List Char → List Char × List Char
  | _, [] => ([], [])
  | state, c :: rest =>
    if c = '"' && state.mayEnd then ([], rest)
    else match state.step .plain c with
      | some next =>
        let (value, after) := cookedValue next rest
        (state.value c ++ value, after)
      | none => ([], rest)

/-- The value of a raw string after its opening quote, and what follows. -/
def rawValue (hashes : List Char) : List Char → List Char × List Char
  | [] => ([], [])
  | c :: rest =>
    if c = '"' && hashes.isPrefixOf rest then ([], rest.drop hashes.length)
    else
      let (value, after) := rawValue hashes rest
      (c :: value, after)

/-- The value and the suffix of a text literal. -/
def textValue : List Char → String × String
  | '"' :: rest =>
    let (value, suffix) := cookedValue .text rest
    (String.ofList value, String.ofList suffix)
  | cs =>
    let hashes := (cs.drop 1).takeWhile (· = '#')
    let (value, suffix) := rawValue hashes (cs.drop (hashes.length + 2))
    (String.ofList value, String.ofList suffix)

/-! ## Numbers -/

/-- Whether an `e` and what follows it make the number a float rather than start a suffix. -/
def isExponent (valued : Bool) : List Char → Bool
  | [] => valued
  | c :: rest =>
    if c = '_' then isExponent valued rest
    else if c = '-' ∨ c = '+' then true
    else if isAsciiDigit c then isExponent true rest
    else valued && isIdentStart c

/-- The value of the digits of an integer, and its suffix. A point or an exponent makes it no
integer. -/
def intDigits? (base value : Nat) (digits : Bool) : List Char → Option (Nat × List Char)
  | [] => if digits then some (value, []) else none
  | c :: rest =>
    if c = '_' then intDigits? base value digits rest
    else if base = 10 ∧ c = '.' then none
    else if base = 10 ∧ (c = 'e' ∨ c = 'E') then
      if isExponent false rest then none
      else if digits then some (value, c :: rest)
      else none
    else
      let digit? := if isAsciiDigit c ∨ 10 < base then hexDigit? c else none
      match digit? with
      | some d => if d < base then intDigits? base (value * base + d) true rest else none
      | none => if digits then some (value, c :: rest) else none

/-- The value and the suffix of an integer literal without sign. -/
def intValue? (cs : List Char) : Option (Nat × String) :=
  let parsed := match cs with
    | '0' :: 'x' :: rest => intDigits? 16 0 false rest
    | '0' :: 'o' :: rest => intDigits? 8 0 false rest
    | '0' :: 'b' :: rest => intDigits? 2 0 false rest
    | c :: rest => if isAsciiDigit c then intDigits? 10 0 false (c :: rest) else none
    | [] => none
  match parsed with
  | some (n, suffix) =>
    if suffix.isEmpty || suffix.head?.any isIdentStart then some (n, String.ofList suffix) else none
  | none => none

/-- What has been seen of a float. -/
structure FloatShape where
  point : Bool := false
  exponent : Bool := false
  sign : Bool := false
  exponentDigit : Bool := false

/-- The suffix of a float literal, if it is one. -/
def floatSuffix? (shape : FloatShape) : List Char → Option (List Char)
  | [] => if shape.exponent && !shape.exponentDigit then none else some []
  | c :: rest =>
    let stop := if shape.exponent && !shape.exponentDigit then none else some (c :: rest)
    if c = '_' then floatSuffix? shape rest
    else if isAsciiDigit c then
      floatSuffix? { shape with exponentDigit := shape.exponentDigit || shape.exponent } rest
    else if c = '.' then
      if shape.exponent || shape.point then none
      else floatSuffix? { shape with point := true } rest
    else if c = 'e' ∨ c = 'E' then
      if (rest.find? (· ≠ '_')).any (fun d => d == '-' || d == '+' || isAsciiDigit d) then
        if shape.exponent then (if shape.exponentDigit then stop else none)
        else floatSuffix? { shape with exponent := true } rest
      else stop
    else if c = '-' ∨ c = '+' then
      if shape.sign || shape.exponentDigit || !shape.exponent then none
      else floatSuffix? { shape with sign := true } rest
    else stop

namespace Literal

/-- The kind and suffix of a number literal without sign. -/
def number (text : String) : LiteralKind × String :=
  match intValue? text.toList with
  | some (n, suffix) => (.int n, suffix)
  | none =>
    match floatSuffix? {} text.toList with
    | some suffix =>
      if suffix.isEmpty || suffix.head?.any isIdentStart then (.float, String.ofList suffix)
      else (.other, "")
    | none => (.other, "")

/-- The kind and suffix of a literal token. -/
def classify (text : String) : LiteralKind × String :=
  match text.toList with
  | '"' :: _ | 'r' :: _ => let (value, suffix) := textValue text.toList; (.text value, suffix)
  | 'b' :: '\'' :: _ => (.byte, "")
  | 'b' :: _ => (.bytes, "")
  | 'c' :: _ => (.nullEnded, "")
  | '\'' :: _ => (.char, "")
  | _ => number text

/-- A literal with the tokens `tokens`, the last of which reads `text`. -/
def ofToken (text : String) (pos : Position) : Literal :=
  ⟨(classify text).1, (classify text).2, [.literal text pos]⟩

/-- The literal whose token reads `text`. -/
def ofText (text : String) : Literal := ofToken text {}

def ofBool (b : Bool) : Literal := ⟨.bool b, "", [Token.name (if b then "true" else "false")]⟩

/-- The literal at the start of a token list: a literal token, a truth value, or a minus and a
number. -/
def read? : List Token → Option (Literal × List Token)
  | .literal text pos :: rest => some (ofToken text pos, rest)
  | .word "true" pos :: rest => some (⟨.bool true, "", [.word "true" pos]⟩, rest)
  | .word "false" pos :: rest => some (⟨.bool false, "", [.word "false" pos]⟩, rest)
  | .sign '-' _ pos :: .literal text at' :: rest =>
    let tokens := [.sign '-' false pos, .literal text at']
    match number text with
    | (.int n, suffix) => some (⟨.int (-n), suffix, tokens⟩, rest)
    | (.float, suffix) => some (⟨.float, suffix, tokens⟩, rest)
    | _ => none
  | _ => none

/-! ## Indexes -/

/-- The index that an integer without a suffix names. -/
def index? (cs : List Char) : Option Nat :=
  match intValue? cs with
  | some (n, suffix) => if suffix.isEmpty && n < 0x100000000 then some n else none
  | none => none

/-- The indexes that a literal names after a point: an integer names one, and a float one for each
of its parts. Of a float that ends in a point, that point is left, as `true` says. -/
def indexes? (text : String) : Option (List Nat × Bool) :=
  match (number text).1 with
  | .int _ => (index? text.toList).map fun n => ([n], false)
  | .float =>
    let parts := splitAtChar '.' text.toList
    let left := parts.getLast?.any List.isEmpty
    ((if left then parts.dropLast else parts).mapM index?).map fun ns => (ns, left)
  | _ => none

end Literal

end TypedSettings.Source
