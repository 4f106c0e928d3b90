import ShaderGraph.Number.Shortest

/-!
# Texts of numbers

`Layout.write` writes the shortest digits of a number, plainly or with an exponent, as a layout
decides; each format that writes numbers has one layout. `fixedText` writes a given number of
decimal places instead.
-/

namespace ShaderGraph

structure Layout where
  /-- The powers of ten for which a leading digit is written plainly; all powers if none. -/
  plain : Option (Int × Int)
  /-- Whether a whole number that is written plainly ends in a point and a zero. -/
  pointed : Bool
  /-- Whether an exponent that is not negative has a sign. -/
  plus : Bool
  tie : Tie
  infinite : Bool → String
  nan : Bool → String

namespace Layout

/-- Digits with a point after the first `point` of them, filled up with zeros. -/
def plainText (pointed : Bool) (digits : List Char) (point : Int) : List Char :=
  if point ≤ 0 then
    '0' :: '.' :: (List.replicate (-point).toNat '0' ++ digits)
  else
    let whole := digits.take point.toNat ++ List.replicate (point.toNat - digits.length) '0'
    match digits.drop point.toNat with
    | [] => if pointed then whole ++ ['.', '0'] else whole
    | fraction => whole ++ '.' :: fraction

/-- One digit before the point, no point if no digit follows, and the power of ten. -/
def scientificText (plus : Bool) (digits : List Char) (power : Int) : List Char :=
  let mantissa := match digits with
    | [] => []
    | [d] => [d]
    | d :: r => d :: '.' :: r
  let sign := if power < 0 then ['-'] else if plus then ['+'] else []
  mantissa ++ 'e' :: (sign ++ Nat.toDigits 10 power.natAbs)

def magnitude (l : Layout) (d : Decimal) : List Char :=
  let digits := Nat.toDigits 10 d.digits
  let point := d.exponent + digits.length
  let power := if d.digits = 0 then 0 else point - 1
  let plainly := match l.plain with
    | none => true
    | some (least, greatest) => decide (least ≤ power ∧ power ≤ greatest)
  if plainly then plainText l.pointed digits (if d.digits = 0 then 1 else point)
  else scientificText l.plus digits power

def write {f : Format} (l : Layout) : Binary f → String
  | .nan s => l.nan s
  | .infinite s => l.infinite s
  | .finite s p =>
    let text := l.magnitude (Shortest.decimal f l.tie p)
    String.ofList (if s then '-' :: text else text)

end Layout

/-- Numbers as they are shown: plain from a tenth of a thousandth up to below ten to the
sixteenth, always with a point or an exponent. -/
def Layout.shown : Layout where
  plain := some (-4, 15)
  pointed := true
  plus := false
  tie := .up
  infinite s := if s then "-inf" else "inf"
  nan _ := "NaN"

/-- Numbers inside a message: never with an exponent, and whole numbers without a point. -/
def Layout.spoken : Layout :=
  { Layout.shown with plain := none, pointed := false }

/-- The exact value rounded to `places` decimal places, a half going to the even neighbour. -/
def fixedText {f : Format} (places : Nat) : Binary f → String
  | .finite s p =>
    let digits := Nat.toDigits 10 (roundHalfEven (f.units p * tenTo places) f.one)
    let digits := List.replicate (places + 1 - digits.length) '0' ++ digits
    let whole := digits.take (digits.length - places)
    let fraction := digits.drop (digits.length - places)
    String.ofList ((if s then ['-'] else []) ++ whole ++ '.' :: fraction)
  | x => Layout.shown.write x

end ShaderGraph
