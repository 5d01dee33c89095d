import TypedSettings.Text.CharClass
import TypedSettings.Text.CodeRange

/-!
JSON texts. Numbers are kept when they are whole; any other number has no value here. A string
whose escapes name half a character has no value either.
-/

namespace TypedSettings.Text

inductive JsonValue where
  | null
  | bool (value : Bool)
  | whole (value : Int)
  | fraction
  | string (value : Option String)
  | array (elements : List JsonValue)
  | object (members : List (Option String × JsonValue))
deriving Repr, Inhabited

namespace JsonValue

/-! ## Writing -/

/-- A control character as four hexadecimal digits. -/
def escapeControl (n : Nat) : List Char :=
  let digits := Nat.toDigits 16 n
  ['\\', 'u'] ++ List.replicate (4 - digits.length) '0' ++ digits

/-- How one character stands between quotes. -/
def escapeChar (c : Char) : List Char :=
  if c = '"' then ['\\', '"']
  else if c = '\\' then ['\\', '\\']
  else if c.toNat = 8 then ['\\', 'b']
  else if c = '\t' then ['\\', 't']
  else if c = '\n' then ['\\', 'n']
  else if c.toNat = 12 then ['\\', 'f']
  else if c = '\r' then ['\\', 'r']
  else if c.toNat < 32 then escapeControl c.toNat
  else [c]

/-- A text between quotes. -/
def quote (s : String) : String := String.ofList ('"' :: s.toList.flatMap escapeChar ++ ['"'])

mutual

/-- The shortest text of a value. -/
def write : JsonValue → String
  | null => "null"
  | bool true => "true"
  | bool false => "false"
  | whole n => toString n
  | fraction => "null"
  | string s => quote (s.getD "")
  | array elements => "[" ++ ",".intercalate (writeAll elements) ++ "]"
  | object members => "\x7b" ++ ",".intercalate (writeMembers members) ++ "\x7d"

def writeAll : List JsonValue → List String
  | [] => []
  | v :: rest => write v :: writeAll rest

def writeMembers : List (Option String × JsonValue) → List String
  | [] => []
  | (key, v) :: rest => (quote (key.getD "") ++ ":" ++ write v) :: writeMembers rest

end

/-! ## Reading strings -/

/-- The character that an escape letter stands for. -/
def escaped? (c : Char) : Option Nat :=
  if c = '"' ∨ c = '\\' ∨ c = '/' then some c.toNat
  else if c = 'b' then some 8
  else if c = 'f' then some 12
  else if c = 'n' then some 10
  else if c = 'r' then some 13
  else if c = 't' then some 9
  else none

/-- The code of four hexadecimal digits. -/
def hexCode? (a b c d : Char) : Option Nat := do
  return (((← hexDigit? a) * 16 + (← hexDigit? b)) * 16 + (← hexDigit? c)) * 16 + (← hexDigit? d)

/-- The codes of a string after its opening quote, up to the closing one, and what follows. A code
is a character or half of one. -/
def codes? : List Char → Option (List Nat × List Char)
  | [] => none
  | '"' :: rest => some ([], rest)
  | '\\' :: 'u' :: a :: b :: c :: d :: rest => do
    let code ← hexCode? a b c d
    let (codes, after) ← codes? rest
    return (code :: codes, after)
  | '\\' :: c :: rest => do
    let code ← escaped? c
    let (codes, after) ← codes? rest
    return (code :: codes, after)
  | c :: rest =>
    if c.toNat < 32 ∨ c = '\\' then none
    else do
      let (codes, after) ← codes? rest
      return (c.toNat :: codes, after)

def isHighHalf (n : Nat) : Bool := 0xD800 ≤ n && n ≤ 0xDBFF

def isLowHalf (n : Nat) : Bool := 0xDC00 ≤ n && n ≤ 0xDFFF

/-- Joins the halves of characters; a half without the other has no character. -/
def join? : List Nat → Option (List Char)
  | [] => some []
  | [n] => if isHighHalf n || isLowHalf n then none else some [Char.ofNat n]
  | n :: m :: rest =>
    if isHighHalf n then
      if isLowHalf m then
        (join? rest).map (Char.ofNat (0x10000 + (n - 0xD800) * 0x400 + (m - 0xDC00)) :: ·)
      else none
    else if isLowHalf n then none
    else (join? (m :: rest)).map (Char.ofNat n :: ·)

/-- The value of a string after its opening quote, and what follows. -/
def stringAt (cs : List Char) : Option (Option String × List Char) :=
  (codes? cs).map fun (codes, after) => ((join? codes).map String.ofList, after)

/-! ## Reading numbers -/

/-- Digits at the front, and what follows. -/
def digitsOf (cs : List Char) : List Char × List Char :=
  (cs.takeWhile isAsciiDigit, cs.dropWhile isAsciiDigit)

/-- What follows a fraction, if there is one. -/
def afterFraction : List Char → Option (Bool × List Char)
  | '.' :: rest =>
    let (digits, after) := digitsOf rest
    if digits.isEmpty then none else some (true, after)
  | cs => some (false, cs)

/-- What follows an exponent, if there is one. -/
def afterExponent : List Char → Option (Bool × List Char)
  | c :: rest =>
    if c = 'e' ∨ c = 'E' then
      let unsigned := match rest with
        | '+' :: r => r
        | '-' :: r => r
        | r => r
      let (digits, after) := digitsOf unsigned
      if digits.isEmpty then none else some (true, after)
    else some (false, c :: rest)
  | [] => some (false, [])

/-- The value of decimal digits. -/
def digitsValue (digits : List Char) : Nat :=
  digits.foldl (fun n d => n * 10 + (d.toNat - '0'.toNat)) 0

/-- A number. Only zero starts with a zero, and minus zero is not whole. -/
def numberAt (negative : Bool) (cs : List Char) : Option (JsonValue × List Char) := do
  let (digits, rest) := digitsOf cs
  if digits.isEmpty ∨ (digits.head? = some '0' ∧ 1 < digits.length) then none
  else
    let (hasPoint, rest) ← afterFraction rest
    let (hasExponent, rest) ← afterExponent rest
    let n := digitsValue digits
    if hasPoint || hasExponent || (negative && n = 0) then some (fraction, rest)
    else some (whole (if negative then -n else n), rest)

/-! ## Reading values -/

def isGap (c : Char) : Bool := c == ' ' || c == '\n' || c == '\t' || c == '\r'

def skipGaps (cs : List Char) : List Char := cs.dropWhile isGap

/-- What follows a word at the front. -/
def afterWord? : (word cs : List Char) → Option (List Char)
  | [], cs => some cs
  | _ :: _, [] => none
  | w :: word, c :: cs => if w = c then afterWord? word cs else none

mutual

/-- The value at the front of a text. Every step takes a character, so the length of the text
bounds `fuel`. -/
def valueAt : (fuel : Nat) → List Char → Option (JsonValue × List Char)
  | 0, _ => none
  | fuel + 1, cs =>
    match skipGaps cs with
    | [] => none
    | '"' :: rest => (stringAt rest).map fun (s, after) => (string s, after)
    | '-' :: rest => numberAt true rest
    | '[' :: rest =>
      match skipGaps rest with
      | ']' :: after => some (array [], after)
      | _ => (elementsAt fuel rest).map fun (vs, after) => (array vs, after)
    | c :: rest =>
      if c.toNat = 0x7B then
        match skipGaps rest with
        | d :: after =>
          if d.toNat = 0x7D then some (object [], after)
          else (membersAt fuel rest).map fun (ms, after) => (object ms, after)
        | [] => none
      else if c = 't' then (afterWord? "rue".toList rest).map fun after => (bool true, after)
      else if c = 'f' then (afterWord? "alse".toList rest).map fun after => (bool false, after)
      else if c = 'n' then (afterWord? "ull".toList rest).map fun after => (null, after)
      else numberAt false (c :: rest)

/-- The elements of an array that holds one, up to its end. -/
def elementsAt : (fuel : Nat) → List Char → Option (List JsonValue × List Char)
  | 0, _ => none
  | fuel + 1, cs => do
    let (v, after) ← valueAt fuel cs
    match skipGaps after with
    | ',' :: rest => do
      let (vs, after) ← elementsAt fuel rest
      return (v :: vs, after)
    | ']' :: rest => return ([v], rest)
    | _ => none

/-- The members of an object that holds one, up to its end. -/
def membersAt : (fuel : Nat) → List Char → Option (List (Option String × JsonValue) × List Char)
  | 0, _ => none
  | fuel + 1, cs => do
    match skipGaps cs with
    | '"' :: rest =>
      let (key, after) ← stringAt rest
      match skipGaps after with
      | ':' :: rest =>
        let (v, after) ← valueAt fuel rest
        match skipGaps after with
        | ',' :: rest => do
          let (ms, after) ← membersAt fuel rest
          return ((key, v) :: ms, after)
        | c :: rest => if c.toNat = 0x7D then return ([(key, v)], rest) else none
        | [] => none
      | _ => none
    | _ => none

end

/-- Reads a whole text. -/
def read? (s : String) : Option JsonValue :=
  match valueAt (2 * s.length + 2) s.toList with
  | some (v, after) => if (skipGaps after).isEmpty then some v else none
  | none => none

end JsonValue

end TypedSettings.Text
