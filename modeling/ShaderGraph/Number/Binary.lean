/-!
# Binary floating-point numbers

A finite number of a format is a sign and a place, where the places count the magnitudes upwards
from zero. `Format.units` is the magnitude at a place as a whole number of units, a unit being the
least positive number of the format; `Format.nearest` is the place nearest to a quotient. Sums,
products and conversions are exact in units and rounded once.
-/

namespace ShaderGraph

/-- The quotient rounded to the nearest whole number, a half going to the even neighbour. -/
def roundHalfEven (num den : Nat) : Nat :=
  let q := num / den
  let r := num % den
  if 2 * r < den then q else if den < 2 * r then q + 1 else q + q % 2

structure Format where
  /-- Bits stored below the leading one. -/
  fraction : Nat
  /-- A unit is two to the power of minus this. -/
  scale : Nat
  /-- Runs of places that hold finite numbers; a run has one place for each value of the stored
  bits. -/
  runs : Nat
deriving DecidableEq

namespace Format

def single : Format := ⟨23, 149, 255⟩
def double : Format := ⟨52, 1074, 2047⟩

variable (f : Format)

/-- The number of places in a run. -/
def run : Nat := Nat.pow 2 f.fraction

/-- The number one in units. -/
def one : Nat := Nat.pow 2 f.scale

/-- The number of places, which is the place that infinity would have. -/
def places : Nat := f.runs * f.run

/-- How often the distance between neighbours has doubled up to a place. The first two runs are one
unit apart, and each later run twice as far apart as the run before it. -/
def shift (place : Nat) : Nat := place / f.run - 1

/-- The magnitude at a place, in distances between neighbours. -/
def mantissa (place : Nat) : Nat :=
  if place < f.run then place else f.run + place % f.run

/-- The magnitude at a place, in units. -/
def units (place : Nat) : Nat := f.mantissa place <<< f.shift place

/-- The place whose magnitude is nearest to `num / den` units, as if there were no last run. -/
def nearest (num den : Nat) : Nat :=
  let shift := (num / den).log2 - f.fraction
  shift * f.run + roundHalfEven num (den <<< shift)

end Format

inductive Binary (f : Format) where
  | finite (negative : Bool) (place : Fin f.places)
  | infinite (negative : Bool)
  | nan (negative : Bool)
deriving DecidableEq

abbrev Single := Binary .single
abbrev Double := Binary .double

namespace Binary

variable {f g : Format}

/-- The number at a place; places past the last one are infinite. -/
def ofPlace (negative : Bool) (place : Nat) : Binary f :=
  if h : place < f.places then .finite negative ⟨place, h⟩ else .infinite negative

/-- The number nearest to `num / den` units. -/
def ofUnits (negative : Bool) (num den : Nat) : Binary f :=
  ofPlace negative (f.nearest num den)

/-- The number nearest to `num / den`. -/
def ofQuotient (negative : Bool) (num den : Nat) : Binary f :=
  ofUnits negative (num * f.one) den

def ofNat (n : Nat) : Binary f := ofQuotient false n 1

def zero : Binary f := ofNat 0

instance : Inhabited (Binary f) := ⟨zero⟩

def isFinite : Binary f → Bool
  | .finite .. => true
  | _ => false

/-- Whether the number lies below zero; minus zero does not. -/
def belowZero : Binary f → Bool
  | .finite s p => s && p.val != 0
  | .infinite s => s
  | .nan _ => false

/-- The number in the nearest place of another format. -/
def convert : Binary f → Binary g
  | .finite s p => ofQuotient s (f.units p) f.one
  | .infinite s => .infinite s
  | .nan s => .nan s

/-- A magnitude with its sign. -/
def signed (negative : Bool) (n : Nat) : Int :=
  if negative then -n else n

def add : Binary f → Binary f → Binary f
  | .nan s, _ => .nan s
  | _, .nan s => .nan s
  | .infinite s, .infinite t => if s = t then .infinite s else .nan true
  | .infinite s, .finite .. => .infinite s
  | .finite .., .infinite s => .infinite s
  | .finite s p, .finite t q =>
    let total := signed s (f.units p) + signed t (f.units q)
    ofUnits (if total = 0 then s && t else decide (total < 0)) total.natAbs 1

def mul : Binary f → Binary f → Binary f
  | .nan s, _ => .nan s
  | _, .nan s => .nan s
  | .infinite s, .infinite t => .infinite (s ^^ t)
  | .infinite s, .finite t q => if q.val = 0 then .nan true else .infinite (s ^^ t)
  | .finite s p, .infinite t => if p.val = 0 then .nan true else .infinite (s ^^ t)
  | .finite s p, .finite t q => ofUnits (s ^^ t) (f.units p * f.units q) f.one

instance : Add (Binary f) := ⟨add⟩
instance : Mul (Binary f) := ⟨mul⟩

/-- Equality of numbers: both zeros are one number, and what is not a number equals nothing. -/
def same : Binary f → Binary f → Bool
  | .finite s p, .finite t q => p = q && (s = t || p.val == 0)
  | .infinite s, .infinite t => s = t
  | _, _ => false

end Binary

end ShaderGraph
