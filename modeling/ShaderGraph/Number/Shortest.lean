import ShaderGraph.Number.Decimal

/-!
# The fewest digits that read back

A magnitude is first written out in full, which decimal always can. Among its leading digits
`Shortest.decimal` takes the fewest from which the same place is read again, rounded down or up.
-/

namespace ShaderGraph

/-- Which of two equally near neighbours is taken. -/
inductive Tie where
  | up
  | even
deriving DecidableEq

/-- The same number without zeros at the end of its digits. -/
def Decimal.trimmed (d : Decimal) : Decimal :=
  let zeros := ((Nat.toDigits 10 d.digits).reverse.takeWhile (· == '0')).length
  ⟨d.negative, d.digits / tenTo zeros, d.exponent + zeros⟩

namespace Shortest

/-- The magnitude at a place, written out in full. -/
def inFull (f : Format) (place : Nat) : Decimal :=
  let below := f.scale - f.shift place
  ⟨false, (f.mantissa place <<< (f.shift place - f.scale)) * Nat.pow 5 below, -below⟩

/-- The nearer of `low` and `low + 1` to `low + rest / step`. -/
def nearer (tie : Tie) (low rest step : Nat) : Nat :=
  if 2 * rest < step then low
  else if step < 2 * rest then low + 1
  else match tie with
    | .up => low + 1
    | .even => low + low % 2

/-- The number that is left when the last `dropped` digits of the magnitude at a place are rounded
off, if the place is read from it again. -/
def roundOff (f : Format) (tie : Tie) (place dropped : Nat) : Option Decimal :=
  let full := inFull f place
  let step := tenTo dropped
  let low := full.digits / step
  let decimal (n : Nat) : Decimal := ⟨false, n, full.exponent + dropped⟩
  let readsBack (n : Nat) : Bool := (decimal n).place f = place
  match readsBack low, readsBack (low + 1) with
  | true, true => some (decimal (nearer tie low (full.digits % step) step))
  | true, false => some (decimal low)
  | false, true => some (decimal (low + 1))
  | false, false => none

def decimal (f : Format) (tie : Tie) (place : Nat) : Decimal :=
  let full := inFull f place
  let size := digitCount full.digits
  let found := (List.range size).findSome? fun n => roundOff f tie place (size - (n + 1))
  (found.getD full).trimmed

end Shortest

end ShaderGraph
