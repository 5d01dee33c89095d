import TypedSettings.Text.CharClass

/-!
Quoted text: a string written between double quotes with every character that would be hard to
read, or would end the quotation, escaped.
-/

namespace TypedSettings.Text.Quoted

/-- The hexadecimal digits of a number, in small letters, without leading zeros. -/
def hexDigits (n : Nat) : List Char := Nat.toDigits 16 n

/-- A code point in braces. -/
def codePoint (c : Char) : List Char :=
  ['\\', 'u', Char.ofNat 0x7B] ++ hexDigits c.toNat ++ [Char.ofNat 0x7D]

/-- How one character stands between double quotes. A single quote needs no escape. -/
def escapeChar (c : Char) : List Char :=
  if c = '\t' then ['\\', 't']
  else if c = '\r' then ['\\', 'r']
  else if c = '\n' then ['\\', 'n']
  else if c = '\\' then ['\\', '\\']
  else if c = '"' then ['\\', '"']
  else if c = '\'' then [c]
  else if isGraphemeExtend c || !isPrintable c then codePoint c
  else [c]

def isOctalDigit (c : Char) : Bool := '0' ≤ c && c ≤ '7'

/-- NUL is `\0`, or `\x00` where an octal digit follows, so that no octal escape appears. -/
def escape : List Char → List Char
  | [] => []
  | c :: rest =>
    (if c.toNat = 0 then
      if rest.head?.any isOctalDigit then ['\\', 'x', '0', '0'] else ['\\', '0']
     else escapeChar c) ++ escape rest

/-- The text between double quotes. -/
def encode (s : String) : String := String.ofList ('"' :: escape s.toList ++ ['"'])

end TypedSettings.Text.Quoted
