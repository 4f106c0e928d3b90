import ShaderGraph.Number.Binary

/-!
# Decimal numerals

`Decimal.toBinary` is the nearest number of a format to a decimal, whatever the size of its
exponent. `Decimal.ofChars?` reads a numeral: digits with at most one point, at least one digit
beside it, and an optional exponent.
-/

namespace ShaderGraph

/-- The number `digits * 10 ^ exponent` with its sign. -/
structure Decimal where
  negative : Bool
  digits : Nat
  exponent : Int
deriving DecidableEq, Inhabited

/-- A power of ten. -/
def tenTo (n : Nat) : Nat := Nat.pow 10 n

def digitCount (n : Nat) : Nat := (Nat.toDigits 10 n).length

/-- The number that a sequence of decimal digits stands for. -/
def ofDigits (cs : List Char) : Nat :=
  cs.foldl (fun n c => 10 * n + (c.toNat - '0'.toNat)) 0

namespace Decimal

/-- The place nearest to the magnitude. The two early answers only spare the work on powers of
ten: a magnitude below `10 ^ -scale` is less than half a unit, and one of at least `10 ^ runs` is
past the last place. -/
def place (f : Format) (d : Decimal) : Nat :=
  let size := d.exponent + digitCount d.digits
  if d.digits = 0 ∨ size < -f.scale then 0
  else if f.runs < size then f.places
  else if d.exponent < 0 then
    f.nearest (d.digits * f.one) (tenTo (-d.exponent).toNat)
  else f.nearest (d.digits * tenTo d.exponent.toNat * f.one) 1

def toBinary {f : Format} (d : Decimal) : Binary f :=
  .ofPlace d.negative (d.place f)

/-- The number written as a whole part, a fractional part and an exponent. -/
def ofParts (negative : Bool) (whole fraction : List Char) (exponent : Int) : Decimal :=
  ⟨negative, ofDigits (whole ++ fraction), exponent - fraction.length⟩

/-- An optional sign and what follows it. -/
def takeSign : List Char → Bool × List Char
  | '-' :: r => (true, r)
  | '+' :: r => (false, r)
  | r => (false, r)

/-- The exponent that a text after the digits stands for, none if the text is no exponent. -/
def exponent? : List Char → Option Int
  | [] => some 0
  | e :: r =>
    let (negative, digits) := takeSign r
    if (e == 'e' || e == 'E') && digits ≠ [] && digits.all Char.isDigit then
      some (Binary.signed negative (ofDigits digits))
    else none

def ofChars? (cs : List Char) : Option Decimal :=
  let (negative, cs) := takeSign cs
  let whole := cs.takeWhile Char.isDigit
  let (fraction, rest) := match cs.dropWhile Char.isDigit with
    | '.' :: r => (r.takeWhile Char.isDigit, r.dropWhile Char.isDigit)
    | r => ([], r)
  if whole ++ fraction = [] then none
  else (exponent? rest).map (ofParts negative whole fraction)

end Decimal

end ShaderGraph
