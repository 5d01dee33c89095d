import TypedSettings.Text.CharClass
import TypedSettings.Text.CodeRange

/-!
Literals of source text: how far a literal reaches, what kind it is, and the value it stands for.
Strings come plain, as bytes (`b`) and null-terminated (`c`), each cooked or raw; numbers may be
followed by a suffix.
-/

namespace TypedSettings.Source

open TypedSettings.Text

/-- A prefix of a text: its length and what follows. -/
structure Scan where
  length : Nat
  rest : List Char

/-! ## Identifiers -/

/-- The longest run of characters that pass `p`. -/
def runOf (p : Char → Bool) : Nat → List Char → Scan
  | n, [] => ⟨n, []⟩
  | n, c :: rest => if p c then runOf p (n + 1) rest else ⟨n, c :: rest⟩

def scanIdent? : List Char → Option Scan
  | [] => none
  | c :: rest => if isIdentStart c then some (runOf isIdentContinue 1 rest) else none

/-- A suffix directly after a literal, if there is one. -/
def withSuffix (s : Scan) : Scan :=
  match scanIdent? s.rest with
  | some t => ⟨s.length + t.length, t.rest⟩
  | none => s

/-- The end of a word: no character follows that would continue it. -/
def wordEnd? (s : Scan) : Option Scan :=
  if s.rest.head?.any isIdentContinue then none else some s

/-! ## Strings -/

inductive StringKind where
  | plain
  | bytes
  | nullEnded
deriving DecidableEq

/-- What a cooked string is in the middle of. -/
inductive CookedState where
  | text
  | afterReturn
  | escape
  | hexFirst
  | hexSecond (first : Nat)
  | braceOpen
  | braceDigits (value length : Nat)
  | gap
  | gapReturn

def isCodePoint (n : Nat) : Bool := n < 0xD800 || (0xDFFF < n && n < 0x110000)

/-- The state after a character that is no part of an escape. -/
def CookedState.plainStep (kind : StringKind) (c : Char) : Option CookedState :=
  if c = '\r' then some .afterReturn
  else if c = '\\' then some .escape
  else match kind with
    | .plain => some .text
    | .bytes => if isAscii c then some .text else none
    | .nullEnded => if c.toNat = 0 then none else some .text

/-- The state after the character that follows a backslash. -/
def CookedState.escapeStep (kind : StringKind) (c : Char) : Option CookedState :=
  if c = 'x' then some .hexFirst
  else if c = 'n' ∨ c = 'r' ∨ c = 't' ∨ c = '\\' ∨ c = '\'' ∨ c = '"' then some .text
  else if c = '0' then (if kind = .nullEnded then none else some .text)
  else if c = 'u' then (if kind = .bytes then none else some .braceOpen)
  else if c = '\n' then some .gap
  else if c = '\r' then some .gapReturn
  else none

/-- The state after one character; `none` when no string reads on like this. -/
def CookedState.step (kind : StringKind) (state : CookedState) (c : Char) : Option CookedState :=
  match state with
  | .text => plainStep kind c
  | .afterReturn => if c = '\n' then some .text else none
  | .escape => escapeStep kind c
  | .hexFirst =>
    match hexDigit? c with
    | some d => if kind = .plain && 7 < d then none else some (.hexSecond d)
    | none => none
  | .hexSecond first =>
    match hexDigit? c with
    | some d => if kind = .nullEnded && first = 0 && d = 0 then none else some .text
    | none => none
  | .braceOpen => if c.toNat = 0x7B then some (.braceDigits 0 0) else none
  | .braceDigits value length =>
    match hexDigit? c with
    | some d => if length = 6 then none else some (.braceDigits (value * 16 + d) (length + 1))
    | none =>
      if length = 0 then none
      else if c = '_' then some state
      else if c.toNat = 0x7D then
        if isCodePoint value && !(kind = .nullEnded && value = 0) then some .text else none
      else none
  | .gap =>
    if c = ' ' ∨ c = '\t' ∨ c = '\n' then some .gap
    else if c = '\r' then some .gapReturn
    else plainStep kind c
  | .gapReturn => if c = '\n' then some .gap else none

/-- Whether a quote ends the string here. -/
def CookedState.mayEnd : CookedState → Bool
  | .text => true
  | .gap => true
  | _ => false

/-- The rest of a cooked string after its opening quote, up to its closing quote. -/
def scanCooked? (kind : StringKind) : CookedState → Nat → List Char → Option Scan
  | _, _, [] => none
  | state, n, c :: rest =>
    if c = '"' && state.mayEnd then some ⟨n + 1, rest⟩
    else match state.step kind c with
      | some next => scanCooked? kind next (n + 1) rest
      | none => none

/-- The rest of a raw string after its opening quote, up to a quote and `hashes`. -/
def scanRaw? (kind : StringKind) (hashes : List Char) : Nat → List Char → Option Scan
  | _, [] => none
  | n, '\r' :: '\n' :: rest => scanRaw? kind hashes (n + 2) rest
  | n, c :: rest =>
    if c = '\r' then none
    else if c = '"' && hashes.isPrefixOf rest then
      some ⟨n + 1 + hashes.length, rest.drop hashes.length⟩
    else if (kind = .bytes && !isAscii c) || (kind = .nullEnded && c.toNat = 0) then none
    else scanRaw? kind hashes (n + 1) rest

/-- A raw string after its letters: hashes, a quote, the text, a quote and as many hashes. -/
def scanRawFrom? (kind : StringKind) (n : Nat) (cs : List Char) : Option Scan :=
  let hashes := cs.takeWhile (· = '#')
  match cs.drop hashes.length with
  | '"' :: rest =>
    if 255 < hashes.length then none else scanRaw? kind hashes (n + hashes.length + 1) rest
  | _ => none

def scanString? : List Char → Option Scan
  | '"' :: rest => scanCooked? .plain .text 1 rest
  | 'r' :: rest => scanRawFrom? .plain 1 rest
  | 'b' :: '"' :: rest => scanCooked? .bytes .text 2 rest
  | 'b' :: 'r' :: rest => scanRawFrom? .bytes 2 rest
  | 'c' :: '"' :: rest => scanCooked? .nullEnded .text 2 rest
  | 'c' :: 'r' :: rest => scanRawFrom? .nullEnded 2 rest
  | _ => none

/-! ## Characters -/

/-- The rest of an escape after its backslash, as far as the state says it goes on. -/
def scanEscape? (kind : StringKind) : CookedState → Nat → List Char → Option Scan
  | .text, n, rest => some ⟨n, rest⟩
  | _, _, [] => none
  | state, n, c :: rest =>
    match state.step kind c with
    | some .gap => none
    | some .gapReturn => none
    | some next => scanEscape? kind next (n + 1) rest
    | none => none

/-- A character literal after its opening quote: one character or escape, and a quote. -/
def scanQuotedChar? (kind : StringKind) (n : Nat) (cs : List Char) : Option Scan :=
  let inner : Option Scan := match cs with
    | [] => none
    | '\\' :: rest => scanEscape? kind .escape (n + 1) rest
    | c :: rest => if kind = .bytes && !isAscii c then none else some ⟨n + 1, rest⟩
  match inner with
  | some ⟨m, '\'' :: rest⟩ => some ⟨m + 1, rest⟩
  | _ => none

def scanChar? : List Char → Option Scan
  | 'b' :: '\'' :: rest => scanQuotedChar? .bytes 2 rest
  | '\'' :: rest => scanQuotedChar? .plain 1 rest
  | _ => none

/-! ## Numbers -/

def isDigitOrLine (c : Char) : Bool := isAsciiDigit c || c == '_'

/-- The exponent after its letter. `before` is what stands if no exponent follows after all. -/
def scanExponent? (before : Option Scan) (signed valued : Bool) : Nat → List Char → Option Scan
  | n, [] => if valued then some ⟨n, []⟩ else before
  | n, c :: rest =>
    if c = '+' ∨ c = '-' then
      if valued then some ⟨n, c :: rest⟩
      else if signed then before
      else scanExponent? before true valued (n + 1) rest
    else if isAsciiDigit c then scanExponent? before signed true (n + 1) rest
    else if c = '_' then scanExponent? before signed valued (n + 1) rest
    else if valued then some ⟨n, c :: rest⟩
    else before

/-- Digits with a point, an exponent, or both. -/
def scanFloatDigits? (cs : List Char) : Option Scan :=
  if !cs.head?.any isAsciiDigit then none
  else
    let whole := runOf isDigitOrLine 0 cs
    match whole.rest with
    | '.' :: rest =>
      if rest.head?.any (fun c => c == '.' || isIdentStart c) then none
      else
        let part := runOf isDigitOrLine (whole.length + 1) rest
        match part.rest with
        | c :: more =>
          if c = 'e' ∨ c = 'E' then scanExponent? (some part) false false (part.length + 1) more
          else some part
        | [] => some part
    | c :: more =>
      if c = 'e' ∨ c = 'E' then scanExponent? none false false (whole.length + 1) more else none
    | [] => none

/-- Digits of a base. A decimal digit that is too large spoils the number; a letter ends it. -/
def scanDigits? (base : Nat) (empty : Bool) : Nat → List Char → Option Scan
  | n, [] => if empty then none else some ⟨n, []⟩
  | n, c :: rest =>
    if c = '_' then
      if empty && base = 10 then none else scanDigits? base empty (n + 1) rest
    else match hexDigit? c with
      | some d =>
        if d < base then scanDigits? base false (n + 1) rest
        else if d < 10 then none
        else if empty then none
        else some ⟨n, c :: rest⟩
      | none => if empty then none else some ⟨n, c :: rest⟩

def scanIntDigits? : List Char → Option Scan
  | '0' :: 'x' :: rest => scanDigits? 16 true 2 rest
  | '0' :: 'o' :: rest => scanDigits? 8 true 2 rest
  | '0' :: 'b' :: rest => scanDigits? 2 true 2 rest
  | cs => scanDigits? 10 true 0 cs

def scanNumber? (cs : List Char) : Option Scan :=
  match (scanFloatDigits? cs).bind fun s => wordEnd? (withSuffix s) with
  | some s => some s
  | none => (scanIntDigits? cs).bind fun s => wordEnd? (withSuffix s)

/-- The literal at the start of a text. -/
def scanLiteral? (cs : List Char) : Option Scan :=
  match scanString? cs with
  | some s => some (withSuffix s)
  | none =>
    match scanChar? cs with
    | some s => some (withSuffix s)
    | none => scanNumber? cs

end TypedSettings.Source
