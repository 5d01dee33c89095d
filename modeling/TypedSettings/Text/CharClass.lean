import TypedSettings.Text.CharTables

/-!
Character classes: which characters may stand in an identifier, which are blank, which have case,
and which can be shown as they are. ASCII is decided directly, the rest by the tables.
-/

namespace TypedSettings.Text

def isAsciiDigit (c : Char) : Bool := '0' ≤ c && c ≤ '9'

def isAsciiLower (c : Char) : Bool := 'a' ≤ c && c ≤ 'z'

def isAsciiUpper (c : Char) : Bool := 'A' ≤ c && c ≤ 'Z'

def isAscii (c : Char) : Bool := c.toNat < 128

/-- May start an identifier; the underscore counts. -/
def isIdentStart (c : Char) : Bool :=
  if isAscii c then isAsciiLower c || isAsciiUpper c || c == '_'
  else CodeRange.contains Table.identStart c.toNat

/-- May continue an identifier. -/
def isIdentContinue (c : Char) : Bool :=
  if isAscii c then isAsciiLower c || isAsciiUpper c || isAsciiDigit c || c == '_'
  else CodeRange.contains Table.identStart c.toNat
    || CodeRange.contains Table.identOnlyContinue c.toNat

/-- White space: the property `White_Space`. -/
def isBlank (c : Char) : Bool :=
  let n := c.toNat
  (9 ≤ n && n ≤ 13) || n == 0x20 || n == 0x85 || n == 0xA0 || n == 0x1680
    || (0x2000 ≤ n && n ≤ 0x200A) || n == 0x2028 || n == 0x2029 || n == 0x202F || n == 0x205F
    || n == 0x3000

theorem isBlank_of_isWhitespace {c : Char} (h : c.isWhitespace = true) : isBlank c = true := by
  simp only [Char.isWhitespace, Bool.or_eq_true, decide_eq_true_eq] at h
  rcases h with ((rfl | rfl) | rfl) | rfl <;> decide

def isUpper (c : Char) : Bool :=
  if isAscii c then isAsciiUpper c else CodeRange.contains Table.uppercase c.toNat

def isLower (c : Char) : Bool :=
  if isAscii c then isAsciiLower c else CodeRange.contains Table.lowercase c.toNat

/-- Has a case, or is a titlecase letter. -/
def isCased (c : Char) : Bool :=
  if isAscii c then isAsciiUpper c || isAsciiLower c else CodeRange.contains Table.cased c.toNat

/-- Is skipped when the surroundings of a letter are looked at for case. -/
def isCaseIgnorable (c : Char) : Bool :=
  if isAscii c then c == '\'' || c == '.' || c == ':' || c == '^' || c.toNat == 0x60
  else CodeRange.contains Table.caseIgnorable c.toNat

/-- Extends the grapheme before it, such as a combining accent. -/
def isGraphemeExtend (c : Char) : Bool :=
  !isAscii c && CodeRange.contains Table.graphemeExtend c.toNat

/-- Has a glyph or is the space. -/
def isPrintable (c : Char) : Bool :=
  if c.toNat < 127 then 32 ≤ c.toNat else !CodeRange.contains Table.unprintable c.toNat

/-- Removes blanks at both ends. -/
def trim (s : String) : String :=
  String.ofList ((s.toList.dropWhile isBlank).reverse.dropWhile isBlank).reverse

end TypedSettings.Text
