import Mathlib.Data.List.Basic
import ShaderGraph.Value

/-!
# Texts of literals

Numbers and the names of types are written with letters, digits and a few signs only
(`Value.isLiteralChar_of_mem_toGlsl`). There is no underscore among them, so a literal never
mentions a generated name, and no slash, so it starts no comment.
-/

namespace ShaderGraph

namespace Glsl

/-- The characters that literals are written with. -/
def isLiteralChar (c : Char) : Bool :=
  c.isAlphanum || ['.', '-', '+', '(', ')', ',', ' '].contains c

theorem isLiteralChar_of_isDigit {c : Char} (h : c.isDigit = true) : isLiteralChar c = true := by
  unfold isLiteralChar Char.isAlphanum
  simp [h]

theorem isLiteralChar_of_mem_toDigits (n : Nat) :
    ∀ c ∈ Nat.toDigits 10 n, isLiteralChar c = true :=
  fun _ hc => isLiteralChar_of_isDigit (Nat.isDigit_of_mem_toDigits (by decide) (by decide) hc)

end Glsl

namespace Layout

open Glsl

theorem isLiteralChar_of_mem_plainText (pointed : Bool) {digits : List Char}
    (h : ∀ c ∈ digits, isLiteralChar c = true) (point : Int) :
    ∀ c ∈ plainText pointed digits point, isLiteralChar c = true := by
  have hzeros : ∀ n, ∀ c ∈ List.replicate n '0', isLiteralChar c = true := by
    intro n c hc
    rw [List.eq_of_mem_replicate hc]
    decide
  have hpoint : isLiteralChar '.' = true := by decide
  have hzero : isLiteralChar '0' = true := by decide
  have htake : ∀ c ∈ digits.take point.toNat, isLiteralChar c = true :=
    fun c hc => h c (List.mem_of_mem_take hc)
  have hdrop : ∀ c ∈ digits.drop point.toNat, isLiteralChar c = true :=
    fun c hc => h c (List.mem_of_mem_drop hc)
  unfold plainText
  split
  · simp only [List.forall_mem_cons, List.forall_mem_append]
    exact ⟨hzero, hpoint, hzeros _, h⟩
  · simp only
    split
    · split <;> simp only [List.forall_mem_cons, List.forall_mem_append]
      · exact ⟨⟨htake, hzeros _⟩, hpoint, hzero, by simp⟩
      · exact ⟨htake, hzeros _⟩
    · simp only [List.forall_mem_cons, List.forall_mem_append]
      exact ⟨⟨htake, hzeros _⟩, hpoint, hdrop⟩

theorem isLiteralChar_of_mem_scientificText (plus : Bool) {digits : List Char}
    (h : ∀ c ∈ digits, isLiteralChar c = true) (power : Int) :
    ∀ c ∈ scientificText plus digits power, isLiteralChar c = true := by
  have hsign : ∀ c ∈ (if power < 0 then ['-'] else if plus then ['+'] else []),
      isLiteralChar c = true := by
    split
    · exact List.all_eq_true.1 (by decide)
    · split <;> exact List.all_eq_true.1 (by decide)
  have hmark : isLiteralChar 'e' = true := by decide
  have hpoint : isLiteralChar '.' = true := by decide
  unfold scientificText
  simp only [List.forall_mem_cons, List.forall_mem_append]
  refine ⟨?_, hmark, hsign, isLiteralChar_of_mem_toDigits _⟩
  rcases digits with _ | ⟨d, _ | ⟨d', digits⟩⟩
  · simp
  · exact h
  · simp only [List.forall_mem_cons] at h ⊢
    exact ⟨h.1, hpoint, h.2⟩

theorem isLiteralChar_of_mem_magnitude (l : Layout) (d : Decimal) :
    ∀ c ∈ l.magnitude d, isLiteralChar c = true := by
  have hdigits := isLiteralChar_of_mem_toDigits d.digits
  unfold magnitude
  extract_lets digits point power plainly
  split
  · exact isLiteralChar_of_mem_plainText _ hdigits _
  · exact isLiteralChar_of_mem_scientificText _ hdigits _

end Layout

namespace Glsl

theorem isLiteralChar_of_mem_floatLiteral (x : Single) :
    ∀ c ∈ (floatLiteral x).toList, isLiteralChar c = true := by
  have hminus : isLiteralChar '-' = true := by decide
  unfold floatLiteral Layout.write
  rcases x with ⟨s, p⟩ | s | s
  · have := Layout.isLiteralChar_of_mem_magnitude .shown
      (Shortest.decimal .single Layout.shown.tie p)
    cases s
    · simpa using this
    · simpa [hminus] using this
  · cases s <;> exact List.all_eq_true.1 (by decide)
  · cases s <;> exact List.all_eq_true.1 (by decide)

theorem isLiteralChar_of_mem_intercalate : ∀ l : List Single,
    ∀ c ∈ (", ".intercalate (l.map floatLiteral)).toList, isLiteralChar c = true
  | [] => by simp
  | [x] => by
    rw [List.map_singleton, String.intercalate_singleton]
    exact isLiteralChar_of_mem_floatLiteral x
  | x :: y :: l => by
    have ih := isLiteralChar_of_mem_intercalate (y :: l)
    rw [List.map_cons] at ih
    rw [List.map_cons, List.map_cons, String.intercalate_cons_cons]
    simp only [String.toList_append, List.forall_mem_append]
    exact ⟨⟨isLiteralChar_of_mem_floatLiteral x, List.all_eq_true.1 (by decide)⟩, ih⟩

end Glsl

open Glsl

theorem Kind.isLiteralChar_of_mem_type (kind : Kind) :
    ∀ c ∈ kind.type.toList, isLiteralChar c = true := by
  cases kind <;> exact List.all_eq_true.1 (by decide)

theorem Kind.underscore_notMem_zero (kind : Kind) : '_' ∉ kind.zero.toList := by
  cases kind <;> decide

theorem Value.isLiteralChar_of_mem_toGlsl (v : Value) :
    ∀ c ∈ v.toGlsl.toList, isLiteralChar c = true := by
  have hvector : ∀ c ∈ (vectorLiteral v.kind.type v.components).toList,
      isLiteralChar c = true := by
    simp only [vectorLiteral, String.toList_append, List.forall_mem_append]
    exact ⟨⟨⟨Kind.isLiteralChar_of_mem_type _, List.all_eq_true.1 (by decide)⟩,
      isLiteralChar_of_mem_intercalate v.components⟩, List.all_eq_true.1 (by decide)⟩
  cases v
  · exact isLiteralChar_of_mem_floatLiteral _
  all_goals exact hvector

theorem Value.underscore_notMem_toGlsl (v : Value) : '_' ∉ v.toGlsl.toList :=
  fun h => absurd (v.isLiteralChar_of_mem_toGlsl _ h) (by decide)

theorem Value.slash_notMem_toGlsl (v : Value) : '/' ∉ v.toGlsl.toList :=
  fun h => absurd (v.isLiteralChar_of_mem_toGlsl _ h) (by decide)

end ShaderGraph
