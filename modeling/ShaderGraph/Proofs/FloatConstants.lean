import ShaderGraph.Proofs.Constants
import ShaderGraph.Proofs.Expansion
import ShaderGraph.Proofs.Numerals

/-!
# Literals are constants of their types

Every finite number is shown as a float constant without a suffix that is read back as the number
(`Glsl.floatConstant_floatLiteral`), whether its layout is plain (`Layout.plain_plainText`) or has
an exponent (`Layout.powered_scientificText`). So a literal that fits a port is a constant of the
port's type (`Port.literal_widen`).
-/

namespace ShaderGraph

namespace Glsl

/-- Digits with a point or an exponent; no number of this form is an integer. -/
inductive FloatNumeral : List Char → Prop
  | fraction {whole part exponent : List Char} (hne : whole ≠ []) (hwhole : AllDigits whole)
    (hpart : AllDigits part) (hexponent : exponent = [] ∨ Exponent exponent) :
    FloatNumeral (whole ++ '.' :: (part ++ exponent))
  | scientific {whole exponent : List Char} (hne : whole ≠ []) (hwhole : AllDigits whole)
    (hexponent : Exponent exponent) : FloatNumeral (whole ++ exponent)

/-- A text is a float constant, with a minus sign or without, that is read as a finite number. -/
structure FloatConstant (x : Single) (text : String) : Prop where
  finite : x.isFinite = true
  form : ∃ s numeral, text.toList = minus s numeral ∧ FloatNumeral numeral
  reads : (Decimal.ofChars? text.toList).map Decimal.toBinary = some x

/-- What is written for a number is one constant to a scan of code. -/
theorem FloatNumeral.constant {t : List Char} (h : FloatNumeral t) : Constant t := by
  have hsuffix : ([] : List Char) ∈ floatSuffixes := List.mem_cons_self
  cases h with
  | fraction hne hwhole hpart hexponent =>
    simpa using Constant.fraction (.inl hne) hwhole hpart hexponent hsuffix
  | scientific hne hwhole hexponent =>
    simpa using Constant.scientific hne hwhole hexponent hsuffix

end Glsl

/-! ## Exponents -/

namespace Decimal

open Glsl

/-- A whole part without a point is read with what stands behind it as exponent. -/
theorem ofChars?_whole (s : Bool) {whole exponent : List Char} (hne : whole ≠ [])
    (hwhole : AllDigits whole)
    (hend : ∀ c, exponent.head? = some c → c.isDigit = false ∧ c ≠ '.') :
    ofChars? (minus s (whole ++ exponent)) = (exponent? exponent).map (ofParts s whole []) := by
  have hdigit : ∀ c, exponent.head? = some c → c.isDigit = false := fun c hc => (hend c hc).1
  have hsome : ¬ whole ++ [] = [] := by simp [hne]
  simp only [ofChars?, takeSign_minus s hne hwhole, takeWhile_append hwhole hdigit,
    dropWhile_append hwhole hdigit]
  rcases exponent with _ | ⟨c, rest⟩
  · simp only [hsome, if_false]
  · have hpoint : c ≠ '.' := (hend c rfl).2
    split
    · rename_i h
      exact absurd (List.cons.inj h).1 hpoint
    · simp only [hsome, if_false]

/-- An exponent as a number is laid out with it. -/
theorem exponent?_power (power : Int) :
    exponent? ('e' :: minus (decide (power < 0)) (Nat.toDigits 10 power.natAbs)) = some power := by
  have hne : Nat.toDigits 10 power.natAbs ≠ [] := List.ne_nil_of_length_pos Nat.length_toDigits_pos
  have hall := allDigits_toDigits power.natAbs
  have hsign := takeSign_minus (decide (power < 0)) hne hall []
  rw [List.append_nil] at hsign
  have hdigits : (Nat.toDigits 10 power.natAbs).all Char.isDigit = true := List.all_eq_true.2 hall
  have hpower : Binary.signed (decide (power < 0)) power.natAbs = power := by
    rw [Binary.signed]
    simp only [decide_eq_true_eq]
    split <;> omega
  simp [exponent?, hsign, hne, hdigits, ofDigits_toDigits, hpower]

theorem exponent_power (power : Int) :
    Exponent ('e' :: minus (decide (power < 0)) (Nat.toDigits 10 power.natAbs)) := by
  have hne : Nat.toDigits 10 power.natAbs ≠ [] := List.ne_nil_of_length_pos Nat.length_toDigits_pos
  cases decide (power < 0) with
  | false => exact .intro (.inl rfl) (.inl rfl) hne (allDigits_toDigits _)
  | true => exact .intro (.inl rfl) (.inr (.inr rfl)) hne (allDigits_toDigits _)

end Decimal

/-! ## Layouts -/

namespace Layout

open Glsl Decimal

/-- With a sign in front, the text is a float constant that is read as this number times a power of
ten. -/
def Shows (n : Nat) (e : Int) (text : List Char) : Prop :=
  FloatNumeral text ∧ ∀ s, ∃ d, ofChars? (minus s text) = some d ∧ d.negative = s ∧
    ∀ f t, d.place f = place f ⟨t, n, e⟩

theorem Plain.shows {n : Nat} {e : Int} {text : List Char} (h : Plain n e text) :
    Shows n e text := by
  obtain ⟨whole, fraction, rfl, hne, hwhole, hfraction, hplace⟩ := h
  refine ⟨?_, fun s => ?_⟩
  · simpa using FloatNumeral.fraction hne hwhole hfraction (.inl rfl)
  · exact ⟨_, ofChars?_parts s hne hwhole hfraction, rfl, fun f t => hplace f s t⟩

/-- The digits of a number, with the point behind the first of them, and the power of ten that puts
it back. -/
theorem shows_scientificText (n : Nat) (e : Int) :
    Shows n e (scientificText false (Nat.toDigits 10 n) (e + (Nat.toDigits 10 n).length - 1)) := by
  have hvalue := ofDigits_toDigits n
  have hall := allDigits_toDigits n
  have hne : Nat.toDigits 10 n ≠ [] := List.ne_nil_of_length_pos Nat.length_toDigits_pos
  generalize hdigits : Nat.toDigits 10 n = digits at hvalue hall hne
  set power : Int := e + digits.length - 1 with hpower
  have hsign : ∀ ds, (if power < 0 then ['-'] else if false then ['+'] else []) ++ ds =
      minus (decide (power < 0)) ds := by
    intro ds
    by_cases hneg : power < 0 <;> simp [minus, hneg]
  have hmark : ∀ ds, ∀ c, ('e' :: ds : List Char).head? = some c →
      c.isDigit = false ∧ c ≠ '.' := by
    rintro ds _ ⟨⟩
    decide
  have hread := exponent?_power power
  have hexponent := exponent_power power
  obtain ⟨d, _ | ⟨d', ds⟩, rfl⟩ := List.exists_cons_of_ne_nil hne
  · have htext : scientificText false [d] power =
        [d] ++ 'e' :: minus (decide (power < 0)) (Nat.toDigits 10 power.natAbs) := by
      rw [scientificText, hsign]
    rw [htext]
    refine ⟨.scientific hne hall hexponent, fun s => ⟨ofParts s [d] [] power, ?_, rfl, ?_⟩⟩
    · rw [ofChars?_whole s hne hall (hmark _), hread]
      rfl
    · intro f t
      have he : power - ([] : List Char).length = e := by
        simp [hpower]
      rw [ofParts, List.append_nil, hvalue, he, place_sign f s t]
  · have htext : scientificText false (d :: d' :: ds) power = [d] ++ '.' :: ((d' :: ds) ++
        'e' :: minus (decide (power < 0)) (Nat.toDigits 10 power.natAbs)) := by
      simp only [scientificText, hsign]
      rfl
    obtain ⟨hd, hpart⟩ := List.forall_mem_cons.1 hall
    have hwhole : AllDigits [d] := List.forall_mem_singleton.2 hd
    rw [htext]
    refine ⟨.fraction (List.cons_ne_nil _ _) hwhole hpart (.inr hexponent), fun s =>
      ⟨ofParts s [d] (d' :: ds) power, ?_, rfl, ?_⟩⟩
    · rw [ofChars?_fraction s (List.cons_ne_nil _ _) hwhole hpart fun c hc => (hmark _ c hc).1,
        hread]
      rfl
    · intro f t
      have he : power - (d' :: ds).length = e := by
        simp only [hpower, List.length_cons]
        omega
      have hjoined : ofDigits ([d] ++ d' :: ds) = n := hvalue
      rw [ofParts, hjoined, he, place_sign f s t]

/-- A shown magnitude is read back, whichever way it is laid out. -/
theorem shows_magnitude (d : Decimal) : Shows d.digits d.exponent (Layout.shown.magnitude d) := by
  obtain ⟨s, n, e⟩ := d
  by_cases hn : n = 0
  · -- zero is laid out plainly
    have hplain := plain_plainText n e
    rw [if_pos hn] at hplain
    have htext : Layout.shown.magnitude ⟨s, n, e⟩ = plainText true (Nat.toDigits 10 n) 1 := by
      simp [magnitude, Layout.shown, hn]
    rw [htext]
    exact hplain.shows
  · have hplain := plain_plainText n e
    rw [if_neg hn] at hplain
    simp only [magnitude, hn, if_false]
    change Shows n e (if decide (-4 ≤ _ ∧ _ ≤ 15) = true then _ else _)
    split
    · exact hplain.shows
    · exact shows_scientificText n e

end Layout

/-! ## Literals -/

namespace Glsl

theorem floatConstant_floatLiteral {x : Single} (hx : x.isFinite = true) :
    FloatConstant x (floatLiteral x) := by
  rcases x with ⟨s, p⟩ | s | s
  · set d := Shortest.decimal .single Layout.shown.tie p with hd
    obtain ⟨hform, hread⟩ := Layout.shows_magnitude d
    obtain ⟨read, hread, hsign, hplace⟩ := hread s
    have htext : (floatLiteral (.finite s p)).toList = minus s (Layout.shown.magnitude d) := by
      rw [floatLiteral, Layout.write, String.toList_ofList]
      rfl
    refine ⟨hx, ⟨s, _, htext, hform⟩, ?_⟩
    have hp : read.place .single = p := (hplace .single d.negative).trans
      (Shortest.place_decimal Format.regular_single Layout.shown.tie p.isLt)
    rw [htext, hread, Option.map_some, Decimal.toBinary, hsign, hp, Binary.ofPlace, dif_pos p.isLt]
  · cases hx
  · cases hx

/-- The least positive number, minus zero and the greatest number. -/
example : [.finite false ⟨1, by decide⟩, .finite true ⟨0, by decide⟩,
    .finite false ⟨2139095039, by decide⟩].map floatLiteral =
      ["1e-45", "-0.0", "3.4028235e38"] := by
  decide +kernel

theorem floatConstants_floatLiteral {xs : List Single} (hxs : xs.all Binary.isFinite = true) :
    List.Forall₂ FloatConstant xs (xs.map floatLiteral) := by
  rw [List.forall₂_map_right_iff, List.forall₂_same]
  exact fun x hx => floatConstant_floatLiteral (List.all_eq_true.1 hxs x hx)

end Glsl

namespace Port

open Glsl

variable {ρ : Type}

/-- The texts of a value on a port, with their types: a float constant, a constructor of a vector
with one float constant for each component of the value, or, on a port that widens numbers, one
with a single float constant. -/
inductive Literal (port : Port ρ) : Value → String → String → Prop
  | float {x : Single} {text : String} (htext : FloatConstant x text) :
    Literal port (.float x) "float" text
  | vector {v : Value} {texts : List String} (hkind : v.kind ≠ .float)
    (hcount : texts.length = v.kind.components)
    (htexts : List.Forall₂ FloatConstant v.components texts) :
    Literal port v ("vec" ++ toString texts.length)
      ("vec" ++ toString texts.length ++ "(" ++ ", ".intercalate texts ++ ")")
  | splat {x : Single} {text : String} (hbroadcast : port.broadcast = true)
    (hkind : port.kind ≠ .float) (htext : FloatConstant x text) :
    Literal port (.float x) ("vec" ++ toString port.kind.components)
      ("vec" ++ toString port.kind.components ++ "(" ++ text ++ ")")

theorem type_eq_vec {kind : Kind} (h : kind ≠ .float) :
    kind.type = "vec" ++ toString kind.components :=
  String.toList_injective (Kind.type_eq h)

/-- A finite value that a port accepts is written as a literal of the port's type. -/
theorem literal_widen {port : Port ρ} {v : Value} (hfinite : v.isFinite = true)
    (haccepts : port.kind.accepts v.kind port.broadcast = true) :
    Literal port v port.kind.type (widen v.toGlsl v.kind port.kind) := by
  have hconstants := floatConstants_floatLiteral hfinite
  by_cases hv : v.kind = .float
  · obtain ⟨x, rfl⟩ : ∃ x, v = .float x := by
      cases v <;> first | exact ⟨_, rfl⟩ | cases hv
    have hx : FloatConstant x (floatLiteral x) := (List.forall₂_cons.1 hconstants).1
    by_cases hkind : port.kind = .float
    · rw [hkind]
      exact .float hx
    · have hbroadcast : port.broadcast = true := by
        revert haccepts hkind
        cases port.kind <;> simp [Value.kind, Kind.accepts]
      rw [widen, if_pos ⟨rfl, hkind⟩, type_eq_vec hkind]
      exact .splat hbroadcast hkind hx
  · have htype : port.kind.type = v.kind.type := by
      revert haccepts hv
      cases port.kind <;> cases v.kind <;> simp [Kind.accepts, Kind.type]
    have hwritten : v.toGlsl = vectorLiteral v.kind.type v.components := by
      cases v <;> first | rfl | exact absurd rfl hv
    have hcount : (v.components.map floatLiteral).length = v.kind.components := by
      rw [List.length_map, v.length_components]
    have hliteral : Literal port v _ _ := .vector hv hcount hconstants
    rw [hcount, ← type_eq_vec hv] at hliteral
    rw [widen, if_neg fun h => hv h.1, hwritten, htype]
    exact hliteral

end Port

end ShaderGraph
