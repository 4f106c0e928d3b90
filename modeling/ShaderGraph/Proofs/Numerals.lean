import ShaderGraph.Proofs.Places
import ShaderGraph.Proofs.Readers
import ShaderGraph.Ron.Document

/-!
# Numerals read back

A number that is laid out plainly is a whole part, a point and a fraction
(`Layout.plain_plainText`). These are read as a decimal (`Decimal.ofChars?_parts`) whose place is
the one that was written, so that the same number is read again (`Ron.Document.exists_parts_write`).
-/

namespace ShaderGraph

/-- The text consists of decimal digits. -/
def AllDigits (cs : List Char) : Prop := ∀ c ∈ cs, c.isDigit = true

theorem allDigits_toDigits (n : Nat) : AllDigits (Nat.toDigits 10 n) :=
  fun _ hc => Nat.isDigit_of_mem_toDigits (by decide) (by decide) hc

theorem allDigits_zeros (n : Nat) : AllDigits (List.replicate n '0') := by
  intro c hc
  rw [List.eq_of_mem_replicate hc]
  rfl

theorem AllDigits.append {a b : List Char} (ha : AllDigits a) (hb : AllDigits b) :
    AllDigits (a ++ b) := List.forall_mem_append.2 ⟨ha, hb⟩

/-- A text with a minus sign in front, or without one. -/
def minus (negative : Bool) (cs : List Char) : List Char := if negative then '-' :: cs else cs

theorem mem_minus {s : Bool} {whole fraction : List Char} (hwhole : AllDigits whole)
    (hfraction : AllDigits fraction) {c : Char} (hc : c ∈ minus s (whole ++ '.' :: fraction)) :
    c.isDigit = true ∨ c = '-' ∨ c = '.' := by
  have hparts : c = '-' ∨ c ∈ whole ++ '.' :: fraction := by
    cases s
    · exact .inr hc
    · exact List.mem_cons.1 hc
  rcases hparts with rfl | hc
  · exact .inr (.inl rfl)
  · rcases List.mem_append.1 hc with hc | hc
    · exact .inl (hwhole c hc)
    · rcases List.mem_cons.1 hc with rfl | hc
      · exact .inr (.inr rfl)
      · exact .inl (hfraction c hc)

namespace Decimal

theorem takeSign_minus (s : Bool) {whole : List Char} (hne : whole ≠ []) (hwhole : AllDigits whole)
    (rest : List Char) : takeSign (minus s (whole ++ rest)) = (s, whole ++ rest) := by
  cases s with
  | true => rfl
  | false =>
    obtain ⟨c, cs, rfl⟩ := List.exists_cons_of_ne_nil hne
    have hc : c.isDigit = true := hwhole c List.mem_cons_self
    change takeSign (c :: (cs ++ rest)) = _
    unfold takeSign
    split
    · rename_i h
      cases h
      cases hc
    · rename_i h
      cases h
      cases hc
    · rfl

/-- A whole part, a point and a fraction are read with what stands behind them as exponent. -/
theorem ofChars?_fraction (s : Bool) {whole fraction exponent : List Char} (hne : whole ≠ [])
    (hwhole : AllDigits whole) (hfraction : AllDigits fraction)
    (hend : ∀ c, exponent.head? = some c → c.isDigit = false) :
    ofChars? (minus s (whole ++ '.' :: (fraction ++ exponent))) =
      (exponent? exponent).map (ofParts s whole fraction) := by
  have hpoint : ∀ c, ('.' :: (fraction ++ exponent)).head? = some c → c.isDigit = false := by
    rintro _ ⟨⟩
    rfl
  have hsome : ¬ whole ++ fraction = [] := by simp [hne]
  simp only [ofChars?, takeSign_minus s hne hwhole, takeWhile_append hwhole hpoint,
    dropWhile_append hwhole hpoint, takeWhile_append hfraction hend,
    dropWhile_append hfraction hend, hsome, if_false]

theorem ofChars?_parts (s : Bool) {whole fraction : List Char} (hne : whole ≠ [])
    (hwhole : AllDigits whole) (hfraction : AllDigits fraction) :
    ofChars? (minus s (whole ++ '.' :: fraction)) = some (ofParts s whole fraction 0) := by
  have hend : ∀ c, ([] : List Char).head? = some c → c.isDigit = false := nofun
  have hread := ofChars?_fraction s hne hwhole hfraction hend
  rwa [List.append_nil] at hread

/-- The sign does not matter to the place. -/
theorem place_sign (f : Format) (s t : Bool) (n : Nat) (e : Int) :
    place f ⟨s, n, e⟩ = place f ⟨t, n, e⟩ := rfl

theorem place_zero (f : Format) (s : Bool) (e : Int) : place f ⟨s, 0, e⟩ = 0 := by
  simp [place]

end Decimal

namespace Layout

open Decimal

/-- The text is a whole part, a point and a fraction that are read as this number times a power of
ten. -/
def Plain (n : Nat) (e : Int) (text : List Char) : Prop :=
  ∃ whole fraction, text = whole ++ '.' :: fraction ∧ whole ≠ [] ∧ AllDigits whole ∧
    AllDigits fraction ∧ ∀ f s t, (ofParts s whole fraction 0).place f = place f ⟨t, n, e⟩

section Plain

variable {digits : List Char} {n : Nat} {e point : Int} (hvalue : ofDigits digits = n)
  (hall : AllDigits digits)
include hvalue hall

/-- Zeros stand between the point and the digits. -/
theorem plain_of_low (hlow : point ≤ 0) (hpoint : point = e + digits.length) :
    Plain n e (plainText true digits point) := by
  refine ⟨['0'], List.replicate (-point).toNat '0' ++ digits, ?_, List.cons_ne_nil _ _,
    allDigits_zeros 1, (allDigits_zeros _).append hall, fun f s t => ?_⟩
  · rw [plainText, if_pos hlow]
    rfl
  · have hread : ofDigits (['0'] ++ (List.replicate (-point).toNat '0' ++ digits)) = n := by
      rw [← hvalue, ← ofDigits_zeros_append ((-point).toNat + 1) digits, List.replicate_succ]
      rfl
    have hexponent : (0 : Int) - (List.replicate (-point).toNat '0' ++ digits).length = e := by
      rw [List.length_append, List.length_replicate]
      omega
    rw [ofParts, hread, hexponent, place_sign f s t]

/-- Zeros stand between the digits and the point. -/
theorem plain_of_high (hne : digits ≠ []) (hlow : ¬ point ≤ 0)
    (hhigh : digits.length ≤ point.toNat) (hpoint : n ≠ 0 → point = e + digits.length) :
    Plain n e (plainText true digits point) := by
  rw [plainText, if_neg hlow, List.drop_eq_nil_of_le hhigh, List.take_of_length_le hhigh]
  refine ⟨digits ++ List.replicate (point.toNat - digits.length) '0', ['0'], rfl, by simp [hne],
    hall.append (allDigits_zeros _), allDigits_zeros 1, fun f s t => ?_⟩
  have hread : ofDigits (digits ++ List.replicate (point.toNat - digits.length) '0' ++ ['0']) =
      n * tenTo (point.toNat - digits.length + 1) := by
    rw [List.append_assoc, ← hvalue, ← ofDigits_append_zeros, List.replicate_succ']
  rw [ofParts, hread]
  by_cases hn : n = 0
  · rw [hn, Nat.zero_mul, place_zero, place_zero]
  · have hexponent : (0 : Int) - (['0'] : List Char).length =
        e - (point.toNat - digits.length + 1 : Nat) := by
      have := hpoint hn
      rw [List.length_singleton]
      omega
    rw [hexponent, place_mul_tenTo f s t]

/-- The point stands among the digits. -/
theorem plain_of_inside (hlow : ¬ point ≤ 0) (hinside : point.toNat < digits.length)
    (hpoint : point = e + digits.length) : Plain n e (plainText true digits point) := by
  rcases hdrop : digits.drop point.toNat with _ | ⟨c, fraction⟩
  · exact absurd (List.drop_eq_nil_iff.1 hdrop) (not_le.2 hinside)
  have hparts : digits.take point.toNat ++ (c :: fraction) = digits := by
    rw [← hdrop, List.take_append_drop]
  have hexponent : (0 : Int) - (c :: fraction).length = e := by
    have hlength := congrArg List.length hdrop
    rw [List.length_drop] at hlength
    omega
  rw [plainText, if_neg hlow, hdrop, Nat.sub_eq_zero_of_le hinside.le, List.replicate_zero,
    List.append_nil]
  refine ⟨digits.take point.toNat, c :: fraction, rfl, ?_,
    fun d hd => hall d (List.mem_of_mem_take hd),
    fun d hd => hall d (List.mem_of_mem_drop (hdrop ▸ hd)), fun f s t => ?_⟩
  · rw [← List.length_pos_iff, List.length_take]
    omega
  · rw [ofParts, hparts, hvalue, hexponent, place_sign f s t]

end Plain

/-- Plain texts of numbers are plain, wherever the point is. -/
theorem plain_plainText (n : Nat) (e : Int) : Plain n e (plainText true (Nat.toDigits 10 n)
    (if n = 0 then 1 else e + (Nat.toDigits 10 n).length)) := by
  have hvalue := ofDigits_toDigits n
  have hall := allDigits_toDigits n
  have hne : Nat.toDigits 10 n ≠ [] := List.ne_nil_of_length_pos Nat.length_toDigits_pos
  by_cases hn : n = 0
  · rw [if_pos hn]
    refine plain_of_high hvalue hall hne (by decide) ?_ (absurd hn)
    rw [hn, Nat.toDigits_zero, List.length_singleton]
    rfl
  · rw [if_neg hn]
    by_cases hlow : e + (Nat.toDigits 10 n).length ≤ 0
    · exact plain_of_low hvalue hall hlow rfl
    · rcases Nat.lt_or_ge (e + (Nat.toDigits 10 n).length).toNat (Nat.toDigits 10 n).length
        with hinside | hhigh
      · exact plain_of_inside hvalue hall hlow hinside rfl
      · exact plain_of_high hvalue hall hne hlow hhigh fun _ => rfl

end Layout

namespace Ron.Document

variable {f : Format}

/-- A finite number is written as a whole part and a fraction from which it is read again. -/
theorem exists_parts_write (hf : f.Regular) (s : Bool) (p : Fin f.places) : ∃ whole fraction,
    (layout.write (.finite s p : Binary f)).toList = minus s (whole ++ '.' :: fraction) ∧
    whole ≠ [] ∧ AllDigits whole ∧ AllDigits fraction ∧
    (Decimal.ofParts s whole fraction 0).toBinary = (.finite s p : Binary f) := by
  obtain ⟨whole, fraction, htext, hne, hwhole, hfraction, hplace⟩ := Layout.plain_plainText
    (Shortest.decimal f layout.tie p).digits (Shortest.decimal f layout.tie p).exponent
  refine ⟨whole, fraction, ?_, hne, hwhole, hfraction, ?_⟩
  · rw [← htext]
    change (String.ofList _).toList = _
    rw [String.toList_ofList]
    rfl
  · have hp : (Decimal.ofParts s whole fraction 0).place f = p :=
      (hplace f s (Shortest.decimal f layout.tie p).negative).trans
        (Shortest.place_decimal hf layout.tie p.isLt)
    unfold Decimal.toBinary Binary.ofPlace
    rw [hp, dif_pos p.isLt]
    rfl

end Ron.Document

end ShaderGraph
