/-!
Whole numbers of a fixed number of bits.
-/

namespace TypedSettings.Text.Bits

/-- How many numbers a number of bits can tell apart. -/
def count (bits : Nat) : Nat := Nat.pow 2 bits

/-- Whether a number fits in so many bits without a sign. -/
def fitsUnsigned (bits : Nat) (n : Int) : Bool := decide (0 ≤ n) && decide (n < count bits)

/-- Whether a number fits in so many bits with its sign. -/
def fitsSigned (bits : Nat) (n : Int) : Bool :=
  decide (-(count (bits - 1) : Int) ≤ n) && decide (n < count (bits - 1))

end TypedSettings.Text.Bits
