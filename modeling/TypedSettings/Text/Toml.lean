import TypedSettings.Text.Bits
import TypedSettings.Text.CharClass
import TypedSettings.Text.CodeRange

/-!
TOML texts of strings, whole numbers, truth values, arrays and tables. Other values (floats and
dates) are refused.

A text is read line by line into keys with values and headers; then the tables are put together. A
table is opened by one header at most, and nothing is defined twice.
-/

namespace TypedSettings.Text

/-- How a table came about. -/
inductive TableOrigin where
  /-- in braces -/
  | braces
  /-- by a header of its own -/
  | header
  /-- by the header of a table inside it -/
  | implied
  /-- by a key with dots -/
  | dotted
deriving DecidableEq, Repr

inductive Toml where
  | string (value : String)
  | whole (value : Int)
  | bool (value : Bool)
  | array (elements : List Toml)
  | table (origin : TableOrigin) (entries : List (String × Toml))
  /-- tables that were opened by headers of one name -/
  | tables (elements : List (List (String × Toml)))
deriving Repr, Inhabited

namespace Toml

/-! ## Lines and blanks -/

def isSpace (c : Char) : Bool := c == ' ' || c == '\t'

def skipSpaces (cs : List Char) : List Char := cs.dropWhile isSpace

/-- A control character, other than the tab. -/
def isControl (c : Char) : Bool := (c.toNat < 32 && c != '\t') || c.toNat == 127

/-- What follows a comment, if the text starts with one. A comment holds no control characters. -/
def skipComment (cs : List Char) : List Char :=
  match cs with
  | '#' :: rest => rest.dropWhile fun c => !isControl c
  | _ => cs

/-- What follows a line end. -/
def newline? : List Char → Option (List Char)
  | '\n' :: rest => some rest
  | '\r' :: '\n' :: rest => some rest
  | _ => none

/-- What follows the end of a line; the text may end instead. -/
def endOfLine? (cs : List Char) : Option (List Char) :=
  match skipComment (skipSpaces cs) with
  | [] => some []
  | rest => newline? rest

/-- Skips blanks, comments and line ends. -/
def skipGaps : (fuel : Nat) → List Char → List Char
  | 0, cs => cs
  | fuel + 1, cs =>
    let rest := skipComment (skipSpaces cs)
    match newline? rest with
    | some after => skipGaps fuel after
    | none => rest

/-! ## Strings -/

/-- The character of a code in hexadecimal digits. -/
def charOfDigits? (digits : List Char) : Option Char :=
  if digits.all fun c => (hexDigit? c).isSome then
    let n := hexNumber digits
    if n < 0xD800 ∨ (0xDFFF < n ∧ n < 0x110000) then some (Char.ofNat n) else none
  else none

/-- The character that an escape stands for, and what follows it. -/
def escape? : List Char → Option (Char × List Char)
  | 'u' :: a :: b :: c :: d :: rest => (charOfDigits? [a, b, c, d]).map fun x => (x, rest)
  | 'U' :: a :: b :: c :: d :: e :: f :: g :: h :: rest =>
    (charOfDigits? [a, b, c, d, e, f, g, h]).map fun x => (x, rest)
  | 'b' :: rest => some (Char.ofNat 8, rest)
  | 't' :: rest => some ('\t', rest)
  | 'n' :: rest => some ('\n', rest)
  | 'f' :: rest => some (Char.ofNat 12, rest)
  | 'r' :: rest => some ('\r', rest)
  | '"' :: rest => some ('"', rest)
  | '\\' :: rest => some ('\\', rest)
  | _ => none

/-- A string in double quotes on one line, after its opening quote. -/
def basicFuel : (fuel : Nat) → List Char → Option (List Char × List Char)
  | 0, _ => none
  | fuel + 1, cs =>
    match cs with
    | [] => none
    | '"' :: rest => some ([], rest)
    | '\\' :: rest => do
      let (c, after) ← escape? rest
      let (s, after) ← basicFuel fuel after
      return (c :: s, after)
    | c :: rest =>
      if isControl c then none
      else (basicFuel fuel rest).map fun (s, after) => (c :: s, after)

/-- A string in single quotes on one line, after its opening quote. -/
def literal? : List Char → Option (List Char × List Char)
  | [] => none
  | '\'' :: rest => some ([], rest)
  | c :: rest =>
    if isControl c then none else (literal? rest).map fun (s, after) => (c :: s, after)

/-- The end of a string in three quotes: one or two quotes before the last three belong to it. -/
def closing? (quote : Char) (cs : List Char) : Option (List Char × List Char) :=
  let n := (cs.takeWhile (· = quote)).length
  if n < 3 then none
  else
    let inside := min (n - 3) 2
    some (List.replicate inside quote, cs.drop (inside + 3))

/-- Skips blanks and line ends. -/
def skipLines : List Char → List Char
  | '\n' :: rest => skipLines rest
  | '\r' :: '\n' :: rest => skipLines rest
  | c :: rest => if isSpace c then skipLines rest else c :: rest
  | [] => []

/-- What follows a backslash at the end of a line: all blanks and line ends are left out. -/
def lineJoin? (cs : List Char) : Option (List Char) :=
  (newline? (skipSpaces cs)).map skipLines

/-- A string in three quotes, after the opening ones. Escapes count where `escapes` says so. -/
def multilineFuel (quote : Char) (escapes : Bool) :
    (fuel : Nat) → List Char → Option (List Char × List Char)
  | 0, _ => none
  | fuel + 1, cs =>
    match closing? quote cs with
    | some done => some done
    | none =>
      match cs with
      | [] => none
      | '\r' :: '\n' :: rest =>
        (multilineFuel quote escapes fuel rest).map fun (s, after) => ('\n' :: s, after)
      | c :: rest =>
        if c = '\\' && escapes then
          match lineJoin? rest with
          | some after => multilineFuel quote escapes fuel after
          | none => do
            let (x, after) ← escape? rest
            let (s, after) ← multilineFuel quote escapes fuel after
            return (x :: s, after)
        else if isControl c && c != '\n' then none
        else (multilineFuel quote escapes fuel rest).map fun (s, after) => (c :: s, after)

/-- A line end right after the opening quotes is left out. -/
def afterOpening (cs : List Char) : List Char := (newline? cs).getD cs

/-- A string on one line. -/
def lineString? (cs : List Char) : Option (List Char × List Char) :=
  match cs with
  | '"' :: rest => basicFuel (rest.length + 1) rest
  | '\'' :: rest => literal? rest
  | _ => none

/-- A string. -/
def stringAt? (cs : List Char) : Option (List Char × List Char) :=
  match cs with
  | '"' :: '"' :: '"' :: rest => multilineFuel '"' true (rest.length + 1) (afterOpening rest)
  | '\'' :: '\'' :: '\'' :: rest => multilineFuel '\'' false (rest.length + 1) (afterOpening rest)
  | _ => lineString? cs

/-! ## Keys -/

def isBareKeyChar (c : Char) : Bool :=
  isAsciiLower c || isAsciiUpper c || isAsciiDigit c || c == '_' || c == '-'

/-- One part of a key. -/
def simpleKey? (cs : List Char) : Option (String × List Char) :=
  match lineString? cs with
  | some (s, after) => some (String.ofList s, after)
  | none =>
    let bare := cs.takeWhile isBareKeyChar
    if bare.isEmpty then none else some (String.ofList bare, cs.dropWhile isBareKeyChar)

def keyFuel : (fuel : Nat) → List Char → Option (List String × List Char)
  | 0, _ => none
  | fuel + 1, cs => do
    let (part, after) ← simpleKey? (skipSpaces cs)
    match skipSpaces after with
    | '.' :: rest => do
      let (parts, after) ← keyFuel fuel rest
      return (part :: parts, after)
    | rest => return ([part], rest)

/-- A key: parts with dots between them. The blanks around it are taken too. -/
def key? (cs : List Char) : Option (List String × List Char) := keyFuel (cs.length + 1) cs

/-! ## Numbers -/

/-- The value of digits in a base. Underscores stand between digits only; `afterDigit` says that
the last character was a digit. -/
def digits? (base value : Nat) (afterDigit : Bool) : List Char → Option Nat
  | [] => if afterDigit then some value else none
  | '_' :: rest => if afterDigit then digits? base value false rest else none
  | c :: rest =>
    match hexDigit? c with
    | some d => if d < base then digits? base (value * base + d) true rest else none
    | none => none

/-- The value of a whole number of 64 bits. Only zero starts with a zero. -/
def wholeOf? (cs : List Char) : Option Int := do
  let (negative, signed, rest) := match cs with
    | '-' :: r => (true, true, r)
    | '+' :: r => (false, true, r)
    | r => (false, false, r)
  let n ← match rest with
    | '0' :: 'x' :: r => if signed then none else digits? 16 0 false r
    | '0' :: 'o' :: r => if signed then none else digits? 8 0 false r
    | '0' :: 'b' :: r => if signed then none else digits? 2 0 false r
    | '0' :: _ :: _ => none
    | r => digits? 10 0 false r
  let value : Int := if negative then -n else n
  if Bits.fitsSigned 64 value then some value else none

/-! ## Tables -/

/-- Puts a value under a key; the parts before the last lead through tables made by dots. -/
def insertKey (v : Toml) : List String → List (String × Toml) → Option (List (String × Toml))
  | [], _ => none
  | [k], entries => if (entries.lookup k).isSome then none else some (entries ++ [(k, v)])
  | k :: rest, entries =>
    match entries.lookup k with
    | none => (insertKey v rest []).map fun inner => entries ++ [(k, .table .dotted inner)]
    | some (.table .dotted inner) =>
      (insertKey v rest inner).map fun inner' =>
        entries.map fun e => if e.1 = k then (k, .table .dotted inner') else e
    | some _ => none

/-- Puts a value in the place of the one under a key, or at the end. -/
def setEntry (k : String) (v : Toml) (entries : List (String × Toml)) : List (String × Toml) :=
  if (entries.lookup k).isSome then entries.map fun e => if e.1 = k then (k, v) else e
  else entries ++ [(k, v)]

/-- Changes the last of tables that were opened by headers of one name. -/
def changeLast (f : List (String × Toml) → Option (List (String × Toml))) :
    List (List (String × Toml)) → Option (List (List (String × Toml)))
  | [] => none
  | [last] => (f last).map fun t => [t]
  | t :: rest => (changeLast f rest).map fun ts => t :: ts

/-- Changes the table at a path, and makes the tables on the way. -/
def changeTable (f : List (String × Toml) → Option (List (String × Toml))) :
    List String → List (String × Toml) → Option (List (String × Toml))
  | [], entries => f entries
  | k :: rest, entries => do
    let changed ← match entries.lookup k with
      | none => (changeTable f rest []).map (Toml.table .implied)
      | some (.table .braces _) => none
      | some (.table origin inner) => (changeTable f rest inner).map (Toml.table origin)
      | some (.tables elements) => (changeLast (changeTable f rest) elements).map Toml.tables
      | some _ => none
    return setEntry k changed entries

/-- What stands under one header: keys with values, in order. -/
structure Section where
  path : List String
  /-- one of several tables of a name -/
  repeated : Bool
  keys : List (List String × Toml)

/-- Adds the keys of a section to a table. -/
def addKeys (keys : List (List String × Toml)) (entries : List (String × Toml)) :
    Option (List (String × Toml)) :=
  keys.foldlM (fun es k => insertKey k.2 k.1 es) entries

/-- Opens the table that a header names, inside the table it belongs to. -/
def openTable (s : Section) (name : String) (entries : List (String × Toml)) :
    Option (List (String × Toml)) := do
  let opened ← match entries.lookup name, s.repeated with
    | none, true => (addKeys s.keys []).map fun t => Toml.tables [t]
    | some (.tables elements), true =>
      (addKeys s.keys []).map fun t => Toml.tables (elements ++ [t])
    | none, false => (addKeys s.keys []).map (Toml.table .header)
    | some (.table .implied inner), false => (addKeys s.keys inner).map (Toml.table .header)
    | _, _ => none
  return setEntry name opened entries

/-- Adds a section to a document. -/
def addSection (entries : List (String × Toml)) (s : Section) : Option (List (String × Toml)) :=
  match s.path.getLast? with
  | none => addKeys s.keys entries
  | some name => changeTable (openTable s name) s.path.dropLast entries

/-! ## Values -/

def isScalarChar (c : Char) : Bool := isBareKeyChar c || c == '+' || c == '.' || c == ':'

/-- A value that is one word. -/
def scalar? (word : List Char) : Option Toml :=
  if word = "true".toList then some (.bool true)
  else if word = "false".toList then some (.bool false)
  else (wholeOf? word).map .whole

mutual

/-- The value at the front of a text. Every step takes a character, so the length of the text
bounds `fuel`. -/
def valueAt : (fuel : Nat) → List Char → Option (Toml × List Char)
  | 0, _ => none
  | fuel + 1, cs =>
    match cs with
    | [] => none
    | '[' :: rest => (elementsAt fuel rest).map fun (vs, after) => (.array vs, after)
    | c :: rest =>
      if c = '"' ∨ c = '\'' then
        (stringAt? cs).map fun (s, after) => (.string (String.ofList s), after)
      else if c.toNat = 0x7B then
        match skipSpaces rest with
        | d :: after =>
          if d.toNat = 0x7D then some (.table .braces [], after)
          else do
            let (keys, after) ← pairsAt fuel rest
            let entries ← addKeys keys []
            return (.table .braces entries, after)
        | [] => none
      else
        (scalar? (cs.takeWhile isScalarChar)).map fun v => (v, cs.dropWhile isScalarChar)

/-- The elements of an array up to its end; a comma may follow the last. -/
def elementsAt : (fuel : Nat) → List Char → Option (List Toml × List Char)
  | 0, _ => none
  | fuel + 1, cs =>
    match skipGaps cs.length cs with
    | ']' :: after => some ([], after)
    | start => do
      let (v, after) ← valueAt fuel start
      match skipGaps after.length after with
      | ',' :: rest => do
        let (vs, after) ← elementsAt fuel rest
        return (v :: vs, after)
      | ']' :: rest => return ([v], rest)
      | _ => none

/-- The keys and values of a table in braces up to its end, on one line. -/
def pairsAt : (fuel : Nat) → List Char → Option (List (List String × Toml) × List Char)
  | 0, _ => none
  | fuel + 1, cs => do
    let (k, after) ← key? cs
    match after with
    | '=' :: rest =>
      let (v, after) ← valueAt fuel (skipSpaces rest)
      match skipSpaces after with
      | ',' :: rest => do
        let (ps, after) ← pairsAt fuel rest
        return ((k, v) :: ps, after)
      | c :: rest => if c.toNat = 0x7D then return ([(k, v)], rest) else none
      | [] => none
    | _ => none

end

/-! ## Documents -/

/-- One line that says something. -/
inductive Line where
  | header (path : List String) (repeated : Bool)
  | pair (key : List String) (value : Toml)

/-- The line at the front of a text, and what follows it. -/
def line? (cs : List Char) : Option (Line × List Char) := do
  match cs with
  | '[' :: '[' :: rest =>
    let (path, after) ← key? rest
    match after with
    | ']' :: ']' :: after => return (.header path true, ← endOfLine? after)
    | _ => none
  | '[' :: rest =>
    let (path, after) ← key? rest
    match after with
    | ']' :: after => return (.header path false, ← endOfLine? after)
    | _ => none
  | _ =>
    let (k, after) ← key? cs
    match after with
    | '=' :: rest =>
      let (v, after) ← valueAt (2 * rest.length + 2) (skipSpaces rest)
      return (.pair k v, ← endOfLine? after)
    | _ => none

def linesFuel : (fuel : Nat) → List Char → Option (List Line)
  | 0, _ => none
  | fuel + 1, cs =>
    match skipGaps (cs.length + 1) cs with
    | [] => some []
    | start => do
      let (l, after) ← line? start
      return l :: (← linesFuel fuel after)

/-- Adds a line to sections, the last one of which is first. -/
def addLine (sections : List Section) : Line → List Section
  | .header path repeated => ⟨path, repeated, []⟩ :: sections
  | .pair k v =>
    match sections with
    | s :: rest => { s with keys := s.keys ++ [(k, v)] } :: rest
    | [] => [⟨[], false, [(k, v)]⟩]

/-- The entries of a document. -/
def read? (text : String) : Option (List (String × Toml)) := do
  let cs := match text.toList with
    | c :: rest => if c.toNat = 0xFEFF then rest else c :: rest
    | [] => []
  let lines ← linesFuel (cs.length + 1) cs
  let sections := (lines.foldl addLine [⟨[], false, []⟩]).reverse
  sections.foldlM addSection []

/-! ## Taking values apart -/

def string? : Toml → Option String
  | .string s => some s
  | _ => none

def elements? : Toml → Option (List Toml)
  | .array vs => some vs
  | .tables ts => some (ts.map (Toml.table .header))
  | _ => none

/-- The values of named fields: those of a table that has no other field, or the elements of an
array in the order of the names. -/
def fields? (names : List String) : Toml → Option (String → Option Toml)
  | .table _ entries =>
    if entries.all fun e => names.contains e.1 then some fun name => entries.lookup name else none
  | .array vs => some fun name => (names.zip vs).lookup name
  | _ => none

end Toml

end TypedSettings.Text
