/-!
Sets of code points written as ranges, the form in which character properties are published, and
runs of code points whose lower case lies at one distance.
-/

namespace TypedSettings.Text

/-- The value of a hexadecimal digit, of either case. -/
def hexDigit? (c : Char) : Option Nat :=
  if '0' ≤ c ∧ c ≤ '9' then some (c.toNat - '0'.toNat)
  else if 'a' ≤ c ∧ c ≤ 'f' then some (c.toNat - 'a'.toNat + 10)
  else if 'A' ≤ c ∧ c ≤ 'F' then some (c.toNat - 'A'.toNat + 10)
  else none

/-- The number written by hexadecimal digits; other characters count as zero. -/
def hexNumber (digits : List Char) : Nat :=
  digits.foldl (fun n c => n * 16 + (hexDigit? c).getD 0) 0

/-- The pieces of `text` between the characters `sep`. -/
def splitAtChar (sep : Char) : List Char → List (List Char)
  | [] => [[]]
  | c :: rest =>
    if c = sep then [] :: splitAtChar sep rest
    else match splitAtChar sep rest with
      | [] => [[c]]
      | piece :: pieces => (c :: piece) :: pieces

/-- The code points from `lo` to `hi`, both included. -/
structure CodeRange where
  lo : Nat
  hi : Nat
deriving DecidableEq, Repr

namespace CodeRange

/-- A range is written `lo-hi`, or `lo` alone when it holds one code point. -/
def ofPiece (piece : List Char) : Option CodeRange :=
  match splitAtChar '-' piece with
  | [lo] => if lo.isEmpty then none else some ⟨hexNumber lo, hexNumber lo⟩
  | [lo, hi] => some ⟨hexNumber lo, hexNumber hi⟩
  | _ => none

/-- Reads lines of ranges separated by blanks. -/
def ofLines (lines : List String) : List CodeRange :=
  lines.flatMap fun line => (splitAtChar ' ' line.toList).filterMap ofPiece

def Mem (n : Nat) (r : CodeRange) : Prop := r.lo ≤ n ∧ n ≤ r.hi

instance (n : Nat) (r : CodeRange) : Decidable (Mem n r) := by unfold Mem; infer_instance

/-- Membership of a code point in a union of ranges. -/
def contains (ranges : List CodeRange) (n : Nat) : Bool :=
  ranges.any fun r => decide (Mem n r)

end CodeRange

/-- Every `step`-th code point from `lo` to `hi`; each has its lower case at distance `delta`,
modulo the size of the code space. -/
structure CaseRun where
  lo : Nat
  hi : Nat
  step : Nat
  delta : Nat
deriving DecidableEq, Repr

namespace CaseRun

/-- A run is written `lo-hi/step+delta`, with `step` one decimal digit. -/
def ofPiece (piece : List Char) : Option CaseRun :=
  match splitAtChar '/' piece with
  | [range, rule] =>
    match CodeRange.ofPiece range, splitAtChar '+' rule with
    | some r, [step, delta] => some ⟨r.lo, r.hi, hexNumber step, hexNumber delta⟩
    | _, _ => none
  | _ => none

/-- Reads lines of runs separated by blanks. -/
def ofLines (lines : List String) : List CaseRun :=
  lines.flatMap fun line => (splitAtChar ' ' line.toList).filterMap ofPiece

/-- The lower case of a code point that the run covers. -/
def lower? (run : CaseRun) (n : Nat) : Option Nat :=
  if run.lo ≤ n ∧ n ≤ run.hi ∧ (n - run.lo) % run.step = 0 then
    some ((n + run.delta) % 0x110000)
  else none

end CaseRun

end TypedSettings.Text
