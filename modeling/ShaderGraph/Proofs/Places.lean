import Mathlib.Tactic.Ring
import ShaderGraph.Number.Shortest

/-!
# Numbers read back from their digits

The place nearest to a quotient depends on the quotient alone (`Format.nearest_congr`), so the place
of a decimal does not change with zeros at the end of its digits (`Decimal.place_mul_tenTo`). A
magnitude written out in full is in its own place (`Shortest.place_inFull`), and so are the fewest
digits that are taken from it (`Shortest.place_decimal`).
-/

namespace ShaderGraph

/-! ## Rounding -/

theorem roundHalfEven_mul_right (num den : Nat) {k : Nat} (hk : 0 < k) :
    roundHalfEven (num * k) (den * k) = roundHalfEven num den := by
  have hlow : 2 * (num % den * k) < den * k ↔ 2 * (num % den) < den := by
    rw [← Nat.mul_assoc, Nat.mul_lt_mul_right hk]
  have hhigh : den * k < 2 * (num % den * k) ↔ den < 2 * (num % den) := by
    rw [← Nat.mul_assoc, Nat.mul_lt_mul_right hk]
  simp only [roundHalfEven, Nat.mul_div_mul_right _ _ hk, Nat.mul_mod_mul_right, hlow, hhigh]

theorem roundHalfEven_mul_self (n : Nat) {den : Nat} (hden : 0 < den) :
    roundHalfEven (n * den) den = n := by
  simp [roundHalfEven, Nat.mul_div_cancel _ hden, hden]

namespace Format

variable (f : Format)

theorem nearest_mul_right (num den : Nat) {k : Nat} (hk : 0 < k) :
    f.nearest (num * k) (den * k) = f.nearest num den := by
  have hshift : ∀ n, (den * k) <<< n = den <<< n * k := by
    intro n
    rw [Nat.shiftLeft_eq, Nat.shiftLeft_eq, Nat.mul_right_comm]
  simp only [nearest, Nat.mul_div_mul_right _ _ hk, hshift, roundHalfEven_mul_right _ _ hk]

/-- Equal quotients have the same nearest place. -/
theorem nearest_congr {a b c d : Nat} (hb : 0 < b) (hd : 0 < d) (h : a * d = c * b) :
    f.nearest a b = f.nearest c d :=
  calc f.nearest a b = f.nearest (a * d) (b * d) := (f.nearest_mul_right a b hd).symm
    _ = f.nearest (c * b) (d * b) := by rw [h, Nat.mul_comm b d]
    _ = f.nearest c d := f.nearest_mul_right c d hb

theorem run_pos : 0 < f.run := Nat.pow_pos (by decide)

theorem mantissa_lt (place : Nat) : f.mantissa place < 2 ^ (f.fraction + 1) := by
  have hrun : 2 ^ (f.fraction + 1) = 2 * f.run := Nat.pow_succ'
  have hmod := Nat.mod_lt place f.run_pos
  rw [mantissa, hrun]
  split <;> omega

theorem mantissa_eq_zero_iff (place : Nat) : f.mantissa place = 0 ↔ place = 0 := by
  have hrun := f.run_pos
  rw [mantissa]
  split <;> omega

theorem log2_units {place : Nat} (hlarge : ¬ place < f.run) :
    (f.units place).log2 = f.fraction + f.shift place := by
  have hrun := f.run_pos
  have hmantissa : f.run ≤ f.mantissa place := by
    rw [mantissa, if_neg hlarge]
    omega
  have hpos : 0 < f.units place := by
    rw [units, Nat.shiftLeft_eq]
    exact Nat.mul_pos (by omega) (Nat.pow_pos (by decide))
  refine (Nat.log2_eq_iff hpos.ne').2 ⟨?_, ?_⟩
  · rw [units, Nat.shiftLeft_eq, Nat.pow_add]
    exact Nat.mul_le_mul_right _ hmantissa
  · rw [units, Nat.shiftLeft_eq, Nat.add_right_comm, Nat.pow_add]
    exact Nat.mul_lt_mul_of_pos_right (f.mantissa_lt place) (Nat.pow_pos (by decide))

/-- A place is made up of its exponent and its mantissa. -/
theorem shift_add_mantissa {place : Nat} (hlarge : ¬ place < f.run) :
    f.shift place * f.run + f.mantissa place = place := by
  have hone : 1 ≤ place / f.run := (Nat.le_div_iff_mul_le f.run_pos).2 (by omega)
  have hparts : (place / f.run - 1) * f.run + f.run = place / f.run * f.run := by
    rw [← Nat.succ_mul]
    congr 1
    omega
  have hdiv := Nat.div_add_mod' place f.run
  rw [shift, mantissa, if_neg hlarge]
  omega

/-- A magnitude is nearest to its own place. -/
theorem nearest_units (place : Nat) : f.nearest (f.units place) 1 = place := by
  by_cases hsmall : place < f.run
  · -- one unit apart: the magnitude is the place
    have hshift : f.shift place = 0 := by rw [shift, Nat.div_eq_of_lt hsmall]
    have hlog : place.log2 - f.fraction = 0 := by
      rcases Nat.eq_zero_or_pos place with rfl | hpos
      · simp
      · have := (Nat.log2_lt hpos.ne').2 hsmall
        omega
    have hround := roundHalfEven_mul_self place Nat.one_pos
    rw [Nat.mul_one] at hround
    simp only [nearest, units, mantissa, hsmall, if_true, hshift, Nat.shiftLeft_zero, Nat.div_one,
      hlog, hround]
    omega
  · have hround : roundHalfEven (f.units place) (1 <<< f.shift place) = f.mantissa place := by
      rw [units, Nat.shiftLeft_eq, Nat.shiftLeft_eq, Nat.one_mul]
      exact roundHalfEven_mul_self _ (Nat.pow_pos (by decide))
    simp only [nearest, Nat.div_one, log2_units f hsmall, Nat.add_sub_cancel_left, hround,
      shift_add_mantissa f hsmall]

end Format

/-! ## Decimals -/

theorem tenTo_pos (n : Nat) : 0 < tenTo n := Nat.pow_pos (by decide)

theorem tenTo_add (m n : Nat) : tenTo (m + n) = tenTo m * tenTo n := Nat.pow_add 10 m n

/-- Digits of a number and zeros after them. -/
theorem toDigits_mul_tenTo {n : Nat} (hn : n ≠ 0) (k : Nat) :
    Nat.toDigits 10 (n * tenTo k) = Nat.toDigits 10 n ++ List.replicate k '0' := by
  induction k with
  | zero => simp [tenTo]
  | succ k ih =>
    have hten : n * tenTo (k + 1) = 10 * (n * tenTo k) + 0 := by
      rw [tenTo_add, show tenTo 1 = 10 from rfl]
      ring
    have hpos : 0 < n * tenTo k := Nat.mul_pos (Nat.pos_of_ne_zero hn) (tenTo_pos k)
    rw [hten, ← Nat.toDigits_append_toDigits (by decide) hpos (by decide), ih,
      List.append_assoc, Nat.toDigits_zero, ← List.replicate_succ']

theorem digitCount_mul_tenTo {n : Nat} (hn : n ≠ 0) (k : Nat) :
    digitCount (n * tenTo k) = digitCount n + k := by
  rw [digitCount, toDigits_mul_tenTo hn, List.length_append, List.length_replicate, digitCount]

theorem ofDigits_append_zeros (cs : List Char) (k : Nat) :
    ofDigits (cs ++ List.replicate k '0') = ofDigits cs * tenTo k := by
  have h := (Nat.ofDigitChars_append (b := 10) (l := cs) (m := List.replicate k '0') 0).trans
    Nat.ofDigitChars_replicate_zero
  exact h.trans (Nat.mul_comm _ _)

theorem ofDigits_zeros_append (k : Nat) (cs : List Char) :
    ofDigits (List.replicate k '0' ++ cs) = ofDigits cs := by
  have h := Nat.ofDigitChars_append (b := 10) (l := List.replicate k '0') (m := cs) 0
  rw [Nat.ofDigitChars_replicate_zero, Nat.mul_zero] at h
  exact h

theorem ofDigits_toDigits (n : Nat) : ofDigits (Nat.toDigits 10 n) = n :=
  Nat.ofDigitChars_ten_toDigits

namespace Decimal

variable (f : Format)

theorem place_eq (d : Decimal) : d.place f =
    if d.digits = 0 ∨ d.exponent + digitCount d.digits < -f.scale then 0
    else if f.runs < d.exponent + digitCount d.digits then f.places
    else f.nearest (d.digits * tenTo d.exponent.toNat * f.one) (tenTo (-d.exponent).toNat) := by
  rw [place]
  by_cases hneg : d.exponent < 0
  · simp only [hneg, if_true, Int.toNat_of_nonpos hneg.le, tenTo, Nat.pow_eq, Nat.pow_zero,
      Nat.mul_one]
  · simp only [hneg, if_false, Int.toNat_of_nonpos (Int.neg_nonpos_of_nonneg (not_lt.1 hneg)),
      tenTo, Nat.pow_eq, Nat.pow_zero]

/-- Zeros at the end of the digits, with the exponent lowered by as many, change no place. -/
theorem place_mul_tenTo (s t : Bool) (n k : Nat) (e : Int) :
    place f ⟨s, n * tenTo k, e - k⟩ = place f ⟨t, n, e⟩ := by
  rw [place_eq, place_eq]
  simp only
  by_cases hn : n = 0
  · simp [hn]
  have hsize : e - k + (digitCount (n * tenTo k) : Int) = e + digitCount n := by
    rw [digitCount_mul_tenTo hn]
    omega
  have hzero : n * tenTo k = 0 ↔ n = 0 := by simp [(tenTo_pos k).ne']
  have hnearest : f.nearest (n * tenTo k * tenTo (e - k).toNat * f.one) (tenTo (-(e - k)).toNat) =
      f.nearest (n * tenTo e.toNat * f.one) (tenTo (-e).toNat) := by
    refine f.nearest_congr (tenTo_pos _) (tenTo_pos _) ?_
    have hpower : tenTo k * tenTo (e - k).toNat * tenTo (-e).toNat =
        tenTo e.toNat * tenTo (-(e - k)).toNat := by
      rw [← tenTo_add, ← tenTo_add, ← tenTo_add]
      congr 1
      omega
    calc n * tenTo k * tenTo (e - k).toNat * f.one * tenTo (-e).toNat
        = n * f.one * (tenTo k * tenTo (e - k).toNat * tenTo (-e).toNat) := by ring
      _ = n * tenTo e.toNat * f.one * tenTo (-(e - k)).toNat := by rw [hpower]; ring
  rw [hsize, hnearest]
  simp only [hzero]

theorem place_trimmed (d : Decimal) : d.trimmed.place f = d.place f := by
  obtain ⟨s, n, e⟩ := d
  rw [trimmed]
  simp only
  set zeros := ((Nat.toDigits 10 n).reverse.takeWhile (· == '0')).length with hzeros
  have hsplit : Nat.toDigits 10 n = ((Nat.toDigits 10 n).reverse.dropWhile (· == '0')).reverse ++
      List.replicate zeros '0' := by
    have hzero : (Nat.toDigits 10 n).reverse.takeWhile (· == '0') = List.replicate zeros '0' :=
      List.eq_replicate_of_mem fun c hc => beq_iff_eq.1 (List.all_eq_true.1 List.all_takeWhile c hc)
    rw [← List.reverse_replicate, ← hzero, ← List.reverse_append, List.takeWhile_append_dropWhile,
      List.reverse_reverse]
  have hn : n = n / tenTo zeros * tenTo zeros := by
    have h := congrArg ofDigits hsplit
    rw [ofDigits_toDigits, ofDigits_append_zeros] at h
    rw [h, Nat.mul_div_cancel _ (tenTo_pos _)]
  have h := place_mul_tenTo f s s (n / tenTo zeros) zeros (e + zeros)
  rw [← hn, add_sub_cancel_right] at h
  exact h.symm

end Decimal

/-! ## The digits of a place -/

/-- The places of a format reach far enough: its units are fine enough for whole distances at one,
and it has more runs than bits below the leading one. -/
structure Format.Regular (f : Format) : Prop where
  fine : f.fraction ≤ f.scale
  wide : f.fraction < f.runs

theorem Format.regular_single : Format.single.Regular := ⟨by decide, by decide⟩

theorem Format.regular_double : Format.double.Regular := ⟨by decide, by decide⟩

namespace Shortest

variable {f : Format} {place : Nat}

theorem inFull_eq (f : Format) (place : Nat) :
    inFull f place = ⟨false, f.mantissa place * 2 ^ (f.shift place - f.scale) *
      5 ^ (f.scale - f.shift place), -(f.scale - f.shift place : Nat)⟩ := by
  rw [inFull, Nat.shiftLeft_eq]
  rfl

theorem inFull_lt (hf : f.Regular) (hplace : place < f.places) :
    (inFull f place).digits < 10 ^ (f.runs + (f.scale - f.shift place)) := by
  have hshift : f.shift place ≤ f.runs - 2 := by
    have := Nat.div_lt_of_lt_mul (Nat.mul_comm _ _ ▸ hplace : place < f.run * f.runs)
    rw [Format.shift]
    omega
  have hbits : f.fraction + 1 + (f.shift place - f.scale) ≤ f.runs := by
    have := hf.fine
    have := hf.wide
    omega
  have hmantissa : f.mantissa place * 2 ^ (f.shift place - f.scale) < 10 ^ f.runs :=
    calc f.mantissa place * 2 ^ (f.shift place - f.scale)
        < 2 ^ (f.fraction + 1) * 2 ^ (f.shift place - f.scale) :=
          Nat.mul_lt_mul_of_pos_right (f.mantissa_lt place) (Nat.pow_pos (by decide))
      _ = 2 ^ (f.fraction + 1 + (f.shift place - f.scale)) := (Nat.pow_add ..).symm
      _ ≤ 2 ^ f.runs := Nat.pow_le_pow_right (by decide) hbits
      _ ≤ 10 ^ f.runs := Nat.pow_le_pow_left (by decide) _
  rw [inFull_eq, Nat.pow_add]
  exact Nat.mul_lt_mul_of_lt_of_le hmantissa (Nat.pow_le_pow_left (by decide) _)
    (Nat.pow_pos (by decide))

theorem place_inFull (hf : f.Regular) (hplace : place < f.places) :
    (inFull f place).place f = place := by
  have hlt := inFull_lt hf hplace
  rw [inFull_eq] at hlt ⊢
  simp only at hlt
  set below := f.scale - f.shift place with hbelow
  set digits := f.mantissa place * 2 ^ (f.shift place - f.scale) * 5 ^ below with hdigits
  have hpowers : ∀ b n : Nat, 0 < b → b ^ n ≠ 0 := fun _ _ hb => (Nat.pow_pos hb).ne'
  have hzero : digits = 0 ↔ place = 0 := by
    simp only [hdigits, Nat.mul_eq_zero, hpowers 2 _ (by decide), hpowers 5 _ (by decide), or_false,
      f.mantissa_eq_zero_iff]
  have hnearest : f.nearest (digits * f.one) (tenTo below) = place := by
    refine (f.nearest_congr (tenTo_pos _) Nat.one_pos ?_).trans (f.nearest_units place)
    have hpower : f.shift place - f.scale + f.scale = f.shift place + below := by omega
    have hten : tenTo below = 2 ^ below * 5 ^ below := Nat.mul_pow 2 5 below
    have hone : f.one = 2 ^ f.scale := rfl
    calc digits * f.one * 1
        = f.mantissa place * 2 ^ (f.shift place - f.scale + f.scale) * 5 ^ below := by
          rw [hdigits, hone, Nat.pow_add]
          ring
      _ = f.units place * tenTo below := by
          rw [hpower, Format.units, Nat.shiftLeft_eq, hten, Nat.pow_add]
          ring
  rw [Decimal.place_eq]
  simp only [neg_neg, Int.toNat_natCast, Int.toNat_neg_natCast]
  by_cases hp : place = 0
  · simp [hzero.2 hp, hp]
  · have hcount : digitCount digits ≤ f.runs + below :=
      (Nat.length_toDigits_le_iff (by decide) (by have := hf.wide; omega)).2 hlt
    have hpos : 0 < digitCount digits := Nat.length_toDigits_pos
    rw [if_neg (by rw [hzero]; omega), if_neg (by omega)]
    exact (congrArg (f.nearest · _) (by rw [show tenTo 0 = 1 from rfl, Nat.mul_one])).trans hnearest

theorem nearer_eq_or (tie : Tie) (low rest step : Nat) :
    nearer tie low rest step = low ∨ nearer tie low rest step = low + 1 := by
  unfold nearer
  split
  · exact .inl rfl
  · split
    · exact .inr rfl
    · cases tie with
      | up => exact .inr rfl
      | even =>
        simp only
        omega

/-- Rounded digits are taken only if they read back. -/
theorem place_of_roundOff {tie : Tie} {dropped : Nat} {d : Decimal}
    (h : roundOff f tie place dropped = some d) : d.place f = place := by
  rw [roundOff] at h
  simp only at h
  split at h
  · rename_i hlow hhigh
    cases h
    rcases nearer_eq_or tie _ _ _ with hn | hn
    · rw [hn]
      exact of_decide_eq_true hlow
    · rw [hn]
      exact of_decide_eq_true hhigh
  · rename_i hlow _
    cases h
    exact of_decide_eq_true hlow
  · rename_i _ hhigh
    cases h
    exact of_decide_eq_true hhigh
  · cases h

theorem place_decimal (hf : f.Regular) (tie : Tie) (hplace : place < f.places) :
    (decimal f tie place).place f = place := by
  rw [decimal, Decimal.place_trimmed]
  rcases hfound : (List.range (digitCount (inFull f place).digits)).findSome? fun n =>
      roundOff f tie place (digitCount (inFull f place).digits - (n + 1)) with _ | d
  · exact place_inFull hf hplace
  · obtain ⟨n, -, hn⟩ := List.exists_of_findSome?_eq_some hfound
    exact place_of_roundOff hn

end Shortest

end ShaderGraph
