import ShaderGraph.Proofs.Scanning

/-!
# Numbers of the language

Numbers are integers with digits to three bases and fractions with exponents. A scan takes for one
what starts like one and goes on with letters, digits, points and signs of exponents. So it reads
every number to its end (`Constant.runs`), and no further if nothing stands directly behind it that
goes on (`splitNumber_run`). A sign ends a hexadecimal number (`Constant.longest_hexadecimal`), but
not for a scan.
-/

namespace ShaderGraph.Glsl

def octalDigits : List Char := ['0', '1', '2', '3', '4', '5', '6', '7']

def hexadecimalDigits : List Char :=
  octalDigits ++ ['8', '9', 'a', 'b', 'c', 'd', 'e', 'f', 'A', 'B', 'C', 'D', 'E', 'F']

def integerSuffixes : List (List Char) := [[], ['u'], ['U']]

def floatSuffixes : List (List Char) := [[], ['f'], ['F'], ['l', 'f'], ['L', 'F']]

inductive Exponent : List Char → Prop
  | intro {mark : Char} {sign digits : List Char} (hmark : mark = 'e' ∨ mark = 'E')
    (hsign : sign = [] ∨ sign = ['+'] ∨ sign = ['-']) (hne : digits ≠ [])
    (hdigits : ∀ c ∈ digits, c.isDigit = true) : Exponent (mark :: (sign ++ digits))

/-- A text is a number of the language. -/
inductive Constant : List Char → Prop
  | decimal {first : Char} {digits suffix : List Char} (hfirst : first.isDigit = true)
    (hzero : first ≠ '0') (hdigits : ∀ c ∈ digits, c.isDigit = true)
    (hsuffix : suffix ∈ integerSuffixes) : Constant (first :: (digits ++ suffix))
  | octal {digits suffix : List Char} (hdigits : ∀ c ∈ digits, c ∈ octalDigits)
    (hsuffix : suffix ∈ integerSuffixes) : Constant ('0' :: (digits ++ suffix))
  | hexadecimal {mark : Char} {digits suffix : List Char} (hmark : mark = 'x' ∨ mark = 'X')
    (hne : digits ≠ []) (hdigits : ∀ c ∈ digits, c ∈ hexadecimalDigits)
    (hsuffix : suffix ∈ integerSuffixes) : Constant ('0' :: mark :: (digits ++ suffix))
  | fraction {whole part exponent suffix : List Char} (hne : whole ≠ [] ∨ part ≠ [])
    (hwhole : ∀ c ∈ whole, c.isDigit = true) (hpart : ∀ c ∈ part, c.isDigit = true)
    (hexponent : exponent = [] ∨ Exponent exponent) (hsuffix : suffix ∈ floatSuffixes) :
    Constant (whole ++ '.' :: (part ++ (exponent ++ suffix)))
  | scientific {whole exponent suffix : List Char} (hne : whole ≠ [])
    (hwhole : ∀ c ∈ whole, c.isDigit = true) (hexponent : Exponent exponent)
    (hsuffix : suffix ∈ floatSuffixes) : Constant (whole ++ (exponent ++ suffix))

/-- Every character goes on with a number whose last character is the one before it. -/
def Runs (cs : List Char) : Prop := cs.IsChain fun last c => continuesNumber last c = true

/-- A letter, a digit or a point goes on with any number. -/
def isPlain (c : Char) : Bool := c.isAlphanum || c == '.'

theorem continuesNumber_of_isPlain {c : Char} (h : isPlain c = true) (last : Char) :
    continuesNumber last c = true := by
  unfold isPlain at h
  unfold continuesNumber
  rw [h]
  rfl

theorem isPlain_of_isDigit {c : Char} (h : c.isDigit = true) : isPlain c = true := by
  unfold isPlain Char.isAlphanum
  rw [h, Bool.or_true]
  rfl

namespace Runs

variable {a b : List Char}

theorem append (ha : Runs a) (hb : ∀ c ∈ b, isPlain c = true) : Runs (a ++ b) := by
  refine List.isChain_append.2 ⟨ha, ?_, fun last _ c hc => ?_⟩
  · induction b with
    | nil => exact .nil
    | cons c b ih =>
      obtain ⟨-, hb⟩ := List.forall_mem_cons.1 hb
      refine List.isChain_cons.2 ⟨fun d hd => ?_, ih hb⟩
      exact continuesNumber_of_isPlain (hb d (List.mem_of_head? hd)) c
  · exact continuesNumber_of_isPlain (hb c (List.mem_of_head? hc)) last

theorem of_isPlain (hb : ∀ c ∈ b, isPlain c = true) : Runs b := append .nil hb

theorem exponent (ha : Runs a) (hb : Exponent b) : Runs (a ++ b) := by
  obtain @⟨mark, sign, digits, hmark, hsign, -, hdigits⟩ := hb
  have hmarked : Runs (a ++ [mark]) := by
    refine ha.append (List.forall_mem_singleton.2 ?_)
    rcases hmark with rfl | rfl <;> decide
  have hsigned : Runs (a ++ [mark] ++ sign) := by
    refine List.isChain_append.2 ⟨hmarked, ?_, fun last hlast c hc => ?_⟩
    · rcases hsign with rfl | rfl | rfl <;> simp
    · obtain rfl : mark = last := by simpa using hlast
      rcases hsign with rfl | rfl | rfl <;> cases hc <;> rcases hmark with rfl | rfl <;> decide
  have hdigits : ∀ c ∈ digits, isPlain c = true := fun c hc => isPlain_of_isDigit (hdigits c hc)
  simpa using hsigned.append hdigits

end Runs

theorem isPlain_of_mem_suffix {suffix : List Char}
    (h : suffix ∈ integerSuffixes ∨ suffix ∈ floatSuffixes) : ∀ c ∈ suffix, isPlain c = true := by
  have hall : (integerSuffixes ++ floatSuffixes).all (·.all isPlain) = true := rfl
  exact List.all_eq_true.1 (List.all_eq_true.1 hall suffix (List.mem_append.2 h))

theorem isPlain_of_mem_hexadecimalDigits : ∀ c ∈ hexadecimalDigits, isPlain c = true :=
  List.all_eq_true.1 rfl

/-- A number starts with a digit, or with a point and a digit behind it. -/
def StartsConstant (cs : List Char) : Prop :=
  ∃ c rest, cs = c :: rest ∧ (c.isDigit = true ∨
    c = '.' ∧ ∃ d, rest.head? = some d ∧ d.isDigit = true)

theorem StartsConstant.of_digits {a : List Char} (hne : a ≠ [])
    (ha : ∀ c ∈ a, c.isDigit = true) (b : List Char) : StartsConstant (a ++ b) := by
  obtain ⟨c, a, rfl⟩ := List.exists_cons_of_ne_nil hne
  exact ⟨c, a ++ b, rfl, .inl (ha c List.mem_cons_self)⟩

namespace Constant

variable {t : List Char}

theorem runs (h : Constant t) : Runs t := by
  cases h with
  | decimal hfirst _ hdigits hsuffix =>
    refine .of_isPlain ?_
    rw [List.forall_mem_cons, List.forall_mem_append]
    exact ⟨isPlain_of_isDigit hfirst, fun c hc => isPlain_of_isDigit (hdigits c hc),
      isPlain_of_mem_suffix (.inl hsuffix)⟩
  | octal hdigits hsuffix =>
    refine .of_isPlain ?_
    rw [List.forall_mem_cons, List.forall_mem_append]
    refine ⟨by decide, fun c hc => ?_, isPlain_of_mem_suffix (.inl hsuffix)⟩
    exact isPlain_of_mem_hexadecimalDigits c (List.mem_append_left _ (hdigits c hc))
  | hexadecimal hmark _ hdigits hsuffix =>
    refine .of_isPlain ?_
    rw [List.forall_mem_cons, List.forall_mem_cons, List.forall_mem_append]
    refine ⟨by decide, ?_, fun c hc => isPlain_of_mem_hexadecimalDigits c (hdigits c hc),
      isPlain_of_mem_suffix (.inl hsuffix)⟩
    rcases hmark with rfl | rfl <;> decide
  | @fraction whole part exponent suffix _ hwhole hpart hexponent hsuffix =>
    have hnumber : Runs (whole ++ '.' :: part) := by
      refine .of_isPlain ?_
      rw [List.forall_mem_append, List.forall_mem_cons]
      exact ⟨fun c hc => isPlain_of_isDigit (hwhole c hc), by decide,
        fun c hc => isPlain_of_isDigit (hpart c hc)⟩
    have hscaled : Runs (whole ++ '.' :: part ++ exponent) := by
      rcases hexponent with rfl | hexponent
      · rwa [List.append_nil]
      · exact hnumber.exponent hexponent
    simpa using hscaled.append (isPlain_of_mem_suffix (.inr hsuffix))
  | @scientific whole exponent suffix _ hwhole hexponent hsuffix =>
    have hnumber : Runs whole := .of_isPlain fun c hc => isPlain_of_isDigit (hwhole c hc)
    simpa using (hnumber.exponent hexponent).append (isPlain_of_mem_suffix (.inr hsuffix))

theorem starts (h : Constant t) : StartsConstant t := by
  cases h with
  | decimal hfirst => exact ⟨_, _, rfl, .inl hfirst⟩
  | octal | hexadecimal => exact ⟨_, _, rfl, .inl (by decide)⟩
  | @fraction whole part exponent suffix hne hwhole hpart =>
    rcases whole with _ | ⟨c, whole⟩
    · obtain ⟨d, part, rfl⟩ := List.exists_cons_of_ne_nil (by simpa using hne)
      exact ⟨'.', _, rfl, .inr ⟨rfl, d, rfl, hpart d List.mem_cons_self⟩⟩
    · exact .of_digits (List.cons_ne_nil c whole) hwhole _
  | scientific hne hwhole => exact .of_digits hne hwhole _

theorem ne_nil (h : Constant t) : t ≠ [] := by
  obtain ⟨c, rest, rfl, -⟩ := h.starts
  exact List.cons_ne_nil c rest

end Constant

/-- Nothing goes on with a number behind a text. -/
def Ends (t rest : List Char) : Prop :=
  ∀ last c, t.getLast? = some last → rest.head? = some c → continuesNumber last c = false

theorem splitNumber_of_runs : ∀ {t : List Char} {last : Char},
    Runs (last :: t) → splitNumber last t = (t, [])
  | [], _, _ => rfl
  | c :: t, last, h => by
    obtain ⟨hc, h⟩ := List.isChain_cons_cons.1 h
    rw [splitNumber, hc, splitNumber_of_runs h]
    rfl

theorem splitNumber_run {c : Char} {t rest : List Char} (hruns : Runs (c :: t))
    (hends : Ends (c :: t) rest) : splitNumber c (t ++ rest) = (t, rest) := by
  have happend := @splitNumber_append c t rest
  rw [splitNumber_of_runs hruns] at happend
  exact happend fun d hd => hends _ d (by rw [List.getLast?_cons, List.getLastD_eq_getLast?]) hd

theorem exists_of_longer {t rest u : List Char} (hfront : u <+: t ++ rest)
    (hlonger : t.length < u.length) : ∃ c more, u = t ++ c :: more ∧ rest.head? = some c := by
  obtain ⟨more, rfl⟩ : t <+: u :=
    List.prefix_of_prefix_length_le (List.prefix_append t rest) hfront hlonger.le
  rw [List.prefix_append_right_inj] at hfront
  rcases more with _ | ⟨c, more⟩
  · simp at hlonger
  · obtain ⟨behind, rfl⟩ := hfront
    exact ⟨c, more, rfl, rfl⟩

/-- If nothing goes on with it, a constant is the longest one there. -/
theorem Constant.longest {t rest : List Char} (h : Constant t) (hends : Ends t rest)
    {u : List Char} (hu : Constant u) (hfront : u <+: t ++ rest) : u.length ≤ t.length := by
  by_contra hlonger
  obtain ⟨c, more, rfl, hrest⟩ := exists_of_longer hfront (Nat.not_le.1 hlonger)
  obtain ⟨-, -, hchain⟩ := List.isChain_append.1 hu.runs
  obtain ⟨last, hlast⟩ := Option.isSome_iff_exists.1 (List.getLast?_isSome.2 h.ne_nil)
  have hc := hchain last hlast c rfl
  rw [hends last c hlast hrest] at hc
  cases hc

theorem Constant.isPlain_of_hexadecimal {t : List Char} (h : Constant ('0' :: 'x' :: t)) :
    ∀ c ∈ t, isPlain c = true := by
  have hwhole : ∀ {c : Char} {whole rest : List Char}, (∀ d ∈ c :: whole, d.isDigit = true) →
      '0' :: 'x' :: t ≠ c :: (whole ++ rest) ∨ whole = [] := by
    intro c whole rest hdigits
    rcases whole with _ | ⟨d, whole⟩
    · exact .inr rfl
    · refine .inl fun h => ?_
      have hd := hdigits d (by simp)
      obtain ⟨rfl, -⟩ := List.cons.inj (List.cons.inj h).2
      cases hd
  generalize htext : '0' :: 'x' :: t = text at h
  cases h with
  | decimal _ hzero => exact absurd (List.cons.inj htext).1.symm hzero
  | @octal digits suffix hdigits hsuffix =>
    obtain ⟨-, h⟩ := List.cons.inj htext
    rcases digits with _ | ⟨d, digits⟩
    · rw [List.nil_append] at h
      simp [← h, integerSuffixes] at hsuffix
    · obtain ⟨rfl, -⟩ := List.cons.inj h
      simp [octalDigits] at hdigits
  | @hexadecimal mark digits suffix _ _ hdigits hsuffix =>
    obtain ⟨-, rfl⟩ := List.cons.inj (List.cons.inj htext).2
    rw [List.forall_mem_append]
    exact ⟨fun c hc => isPlain_of_mem_hexadecimalDigits c (hdigits c hc),
      isPlain_of_mem_suffix (.inl hsuffix)⟩
  | @fraction whole part exponent suffix _ hdigits =>
    rcases whole with _ | ⟨c, whole⟩
    · simp at htext
    · rcases hwhole hdigits with hne | rfl
      · exact absurd htext hne
      · simp at htext
  | @scientific whole exponent suffix hne hdigits hexponent =>
    obtain ⟨c, whole, rfl⟩ := List.exists_cons_of_ne_nil hne
    rcases hwhole hdigits with hne | rfl
    · exact absurd htext hne
    · obtain ⟨hmark, -⟩ := hexponent
      rcases hmark with rfl | rfl <;> simp at htext

/-- A sign ends a hexadecimal constant. -/
theorem Constant.longest_hexadecimal {t rest : List Char}
    (hrest : ∀ c, rest.head? = some c → isPlain c = false) {u : List Char} (hu : Constant u)
    (hfront : u <+: '0' :: 'x' :: t ++ rest) : u.length ≤ ('0' :: 'x' :: t).length := by
  by_contra hlonger
  obtain ⟨c, more, rfl, hc⟩ := exists_of_longer hfront (Nat.not_le.1 hlonger)
  have hplain := hu.isPlain_of_hexadecimal c (by simp)
  rw [hrest c hc] at hplain
  cases hplain

end ShaderGraph.Glsl
