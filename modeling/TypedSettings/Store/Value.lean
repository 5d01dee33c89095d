import TypedSettings.Text.Sorted

/-!
Values that a store holds. Two values are the same when their kinds agree and their contents do;
floats are compared as numbers, so that the two zeros are the same and nothing is the same as what
is no number.
-/

namespace TypedSettings

/-- A float of 32 bits, by its bits. -/
structure Single where
  bits : UInt32
deriving DecidableEq, Repr

namespace Single

/-- The bits without the sign. -/
def magnitude (x : Single) : Nat := x.bits.toNat % 0x80000000

/-- Is no number: its exponent is the largest and its fraction is not zero. -/
def isNaN (x : Single) : Bool := 0x7F800000 < x.magnitude

/-- Equality of numbers. -/
def same (x y : Single) : Bool :=
  !x.isNaN && !y.isNaN && (x.bits == y.bits || (x.magnitude == 0 && y.magnitude == 0))

end Single

inductive StoredValue where
  | bool (value : Bool)
  | int (value : Int32)
  | long (value : Int64)
  | float (value : Single)
  | string (value : String)
  /-- the members sorted, each once -/
  | set (members : List String)
deriving DecidableEq, Repr

namespace StoredValue

/-- Whether writing one value over the other changes nothing. -/
def same : StoredValue → StoredValue → Bool
  | float x, float y => x.same y
  | v, w => v == w

/-- A set of texts. -/
def ofTexts (texts : List String) : StoredValue := set (Text.Sorted.ofList texts)

/-! ## Values of one kind -/

def bool? : StoredValue → Option Bool
  | bool value => some value
  | _ => none

def int? : StoredValue → Option Int32
  | int value => some value
  | _ => none

def long? : StoredValue → Option Int64
  | long value => some value
  | _ => none

def float? : StoredValue → Option Single
  | float value => some value
  | _ => none

def string? : StoredValue → Option String
  | string value => some value
  | _ => none

def set? : StoredValue → Option (List String)
  | set members => some members
  | _ => none

end StoredValue

end TypedSettings
