import ShaderGraph.Proofs.Scanning
import ShaderGraph.Shader.Source

/-!
# Words of indented code

The lines of a block are written without the blanks at their ends and with an indent in front, and
lines without anything else are left out. So nothing changes but blanks around newlines and at the
end (`Respaced`), on which no word depends (`wordsAfter_respaced`): the lines of a block have the
words of its code (`words_blockText`).
-/

namespace ShaderGraph

namespace Glsl

/-! ## Blanks -/

theorem isBlank_of_isWordChar {c : Char} (h : isWordChar c = true) : isBlank c = false := by
  have hrange : c.toNat ≤ 0x7F ∧ 0x30 ≤ c.toNat := by
    unfold isWordChar Char.isAlphanum Char.isAlpha Char.isUpper Char.isLower Char.isDigit at h
    simp only [Bool.or_eq_true, Bool.and_eq_true, decide_eq_true_eq, beq_iff_eq,
      UInt32.le_iff_toNat_le] at h
    change c.val.toNat ≤ 0x7F ∧ 0x30 ≤ c.val.toNat
    rcases h with ((h | h) | h) | h
    · exact ⟨h.2.trans (by decide), le_trans (by decide) h.1⟩
    · exact ⟨h.2.trans (by decide), le_trans (by decide) h.1⟩
    · exact ⟨h.2.trans (by decide), le_trans (by decide) h.1⟩
    · subst h
      decide
  unfold isBlank blankRuns
  simp
  omega

/-- The words of a text behind another one, whose last character that is not blank is given. -/
def wordsAfter (before : Option Char) (cs : List Char) : List String :=
  (scan before cs).filterMap fun
    | .word name => some (String.ofList name)
    | .other _ => none

theorem ne_of_isBlank {c d : Char} (hc : isBlank c = true) (hd : isBlank d = false) : c ≠ d := by
  rintro rfl
  rw [hc] at hd
  cases hd

theorem isWordChar_of_isBlank {c : Char} (hc : isBlank c = true) : isWordChar c = false := by
  by_contra h
  rw [isBlank_of_isWordChar (by simpa using h)] at hc
  cases hc

theorem isAlphanum_of_isBlank {c : Char} (hc : isBlank c = true) : c.isAlphanum = false := by
  have h := isWordChar_of_isBlank hc
  unfold isWordChar at h
  exact (Bool.or_eq_false_iff.1 h).1

theorem continuesNumber_blank {c : Char} (hc : isBlank c = true) (last : Char) :
    continuesNumber last c = false := by
  unfold continuesNumber
  simp [isAlphanum_of_isBlank hc, ne_of_isBlank hc (show isBlank '.' = false by decide),
    ne_of_isBlank hc (show isBlank '-' = false by decide),
    ne_of_isBlank hc (show isBlank '+' = false by decide)]

theorem startsNumber_blank {c : Char} (hc : isBlank c = true) (before : Option Char)
    (rest : List Char) : startsNumber before c rest = false := by
  have halphanum := isAlphanum_of_isBlank hc
  unfold Char.isAlphanum at halphanum
  unfold startsNumber
  simp [(Bool.or_eq_false_iff.1 halphanum).2,
    ne_of_isBlank hc (show isBlank '.' = false by decide)]

theorem scan_blank {c : Char} (hc : isBlank c = true) (before : Option Char) (rest : List Char) :
    scan before (c :: rest) = .other [c] :: scan before rest := by
  have hstart : isWordStart c = false := by
    by_contra h
    have hword := isWordChar_of_isWordStart (by simpa using h)
    rw [isWordChar_of_isBlank hc] at hword
    cases hword
  rw [scan_other (noComment_of_ne (ne_of_isBlank hc (by decide)))
    (startsNumber_blank hc before rest) hstart, if_pos hc]

theorem wordsAfter_blanks (before : Option Char) {g : List Char} (hg : ∀ c ∈ g, isBlank c = true)
    (rest : List Char) : wordsAfter before (g ++ rest) = wordsAfter before rest := by
  induction g with
  | nil => rfl
  | cons c g ih =>
    obtain ⟨hc, hg⟩ := List.forall_mem_cons.1 hg
    rw [← ih hg, List.cons_append, wordsAfter, scan_blank hc]
    rfl

/-! ## Other blanks -/

/-- Two texts differ at most in blanks around newlines and in blanks at the end. -/
inductive Respaced : List Char → List Char → Prop
  | ends {a b : List Char} (ha : ∀ c ∈ a, isBlank c = true) (hb : ∀ c ∈ b, isBlank c = true) :
    Respaced a b
  | char (c : Char) {a b : List Char} (h : Respaced a b) : Respaced (c :: a) (c :: b)
  | gap {g g' a b : List Char} (hg : ∀ c ∈ g, isBlank c = true) (hg' : ∀ c ∈ g', isBlank c = true)
    (hline : '\n' ∈ g) (hline' : '\n' ∈ g') (h : Respaced a b) : Respaced (g ++ a) (g' ++ b)

namespace Respaced

variable {a b : List Char} {c : Char}

theorem refl : ∀ a, Respaced a a
  | [] => .ends nofun nofun
  | c :: a => .char c (refl a)

theorem append (front : List Char) (h : Respaced a b) : Respaced (front ++ a) (front ++ b) := by
  induction front with
  | nil => exact h
  | cons c front ih => exact .char c ih

/-- Two texts start with the same character, or what they start with are blanks, if anything. -/
theorem head_cases (h : Respaced a b) :
    ((∀ c, a.head? = some c → isBlank c = true) ∧ ∀ c, b.head? = some c → isBlank c = true) ∨
      ∃ c a' b', isBlank c = false ∧ a = c :: a' ∧ b = c :: b' ∧ Respaced a' b' := by
  have hblank : ∀ {l rest : List Char}, (∀ c ∈ l, isBlank c = true) → '\n' ∈ l →
      ∀ c, (l ++ rest).head? = some c → isBlank c = true := by
    intro l rest hl hline c hc
    rw [List.head?_append_of_ne_nil _ (List.ne_nil_of_mem hline)] at hc
    exact hl c (List.mem_of_head? hc)
  cases h with
  | ends ha hb =>
    exact .inl ⟨fun c hc => ha c (List.mem_of_head? hc), fun c hc => hb c (List.mem_of_head? hc)⟩
  | gap hg hg' hline hline' => exact .inl ⟨hblank hg hline, hblank hg' hline'⟩
  | @char c a b h =>
    by_cases hc : isBlank c = true
    · refine .inl ⟨?_, ?_⟩ <;>
      · intro d hd
        cases hd
        exact hc
    · exact .inr ⟨c, a, b, by simpa using hc, rfl, rfl, h⟩

theorem eq_cons (h : Respaced (c :: a) b) (hc : isBlank c = false) :
    ∃ b', b = c :: b' ∧ Respaced a b' := by
  rcases h.head_cases with ⟨ha, -⟩ | ⟨d, a', b', -, he, rfl, h⟩
  · rw [ha c rfl] at hc
    cases hc
  · cases he
    exact ⟨b', rfl, h⟩

theorem blanks_of_nil (h : Respaced [] b) : ∀ c ∈ b, isBlank c = true := by
  generalize ha : [] = a at h
  cases h with
  | ends _ hb => exact hb
  | char => cases ha
  | @gap g _ _ _ _ _ hline =>
    rcases g with _ | ⟨d, g⟩
    · cases hline
    · cases ha

section Run

variable {p : Char → Bool} (hp : ∀ c, isBlank c = true → p c = false)
include hp

theorem head?_any (h : Respaced a b) : a.head?.any p = b.head?.any p := by
  have hidle : ∀ {l : List Char}, (∀ c, l.head? = some c → isBlank c = true) →
      l.head?.any p = false := by
    intro l hl
    rcases l with _ | ⟨c, l⟩
    · rfl
    · exact hp c (hl c rfl)
  rcases h.head_cases with ⟨ha, hb⟩ | ⟨c, a', b', -, rfl, rfl, -⟩
  · rw [hidle ha, hidle hb]
  · rfl

/-- Runs of characters that are no blanks are the same. -/
theorem span (h : Respaced a b) :
    a.takeWhile p = b.takeWhile p ∧ Respaced (a.dropWhile p) (b.dropWhile p) := by
  have hidle : ∀ {l : List Char}, (∀ c, l.head? = some c → isBlank c = true) →
      l.takeWhile p = [] ∧ l.dropWhile p = l := by
    intro l hl
    rcases l with _ | ⟨c, l⟩
    · exact ⟨rfl, rfl⟩
    · simp [hp c (hl c rfl)]
  induction a generalizing b with
  | nil =>
    rw [(hidle fun c hc => h.blanks_of_nil c (List.mem_of_head? hc)).1,
      (hidle fun c hc => h.blanks_of_nil c (List.mem_of_head? hc)).2]
    exact ⟨rfl, h⟩
  | cons d a ih =>
    rcases h.head_cases with ⟨ha, hb⟩ | ⟨c, a', b', -, he, rfl, h'⟩
    · rw [(hidle ha).1, (hidle hb).1, (hidle ha).2, (hidle hb).2]
      exact ⟨rfl, h⟩
    · cases he
      obtain ⟨htake, hdrop⟩ := ih h'
      rcases hd : p d with _ | _
      · simpa [hd] using h
      · simpa [hd, htake] using hdrop

end Run

theorem splitNumber (last : Char) (h : Respaced a b) :
    (splitNumber last a).1 = (splitNumber last b).1 ∧
      Respaced (splitNumber last a).2 (splitNumber last b).2 := by
  have hidle : ∀ {last : Char} {l : List Char}, (∀ c, l.head? = some c → isBlank c = true) →
      Glsl.splitNumber last l = ([], l) := by
    intro last l hl
    rcases l with _ | ⟨c, l⟩
    · rfl
    · have hc : continuesNumber last c = false := continuesNumber_blank (hl c rfl) last
      rw [Glsl.splitNumber, hc]
      rfl
  induction a generalizing b last with
  | nil =>
    rw [hidle fun c hc => h.blanks_of_nil c (List.mem_of_head? hc)]
    exact ⟨rfl, h⟩
  | cons d a ih =>
    rcases h.head_cases with ⟨ha, hb⟩ | ⟨c, a', b', -, he, rfl, h'⟩
    · rw [hidle ha, hidle hb]
      exact ⟨rfl, h⟩
    · cases he
      obtain ⟨hnumber, hrest⟩ := ih d h'
      rcases hd : continuesNumber last d with _ | _
      · simpa [Glsl.splitNumber, hd] using h
      · simpa [Glsl.splitNumber, hd, hnumber] using hrest

/-- A line ends at the same place. -/
theorem line (h : Respaced a b) :
    Respaced (a.dropWhile (· != '\n')) (b.dropWhile (· != '\n')) := by
  induction h with
  | @ends a b ha hb =>
    exact .ends (fun c hc => ha c ((List.dropWhile_suffix _).subset hc))
      fun c hc => hb c ((List.dropWhile_suffix _).subset hc)
  | @char c a b h ih =>
    by_cases hc : c = '\n'
    · subst hc
      exact .char _ h
    · rw [List.dropWhile_cons_of_pos (by simpa using hc),
        List.dropWhile_cons_of_pos (by simpa using hc)]
      exact ih
  | @gap g g' a b hg hg' hline hline' h ih =>
    have hdrop : ∀ {g : List Char} (l : List Char), '\n' ∈ g →
        ∃ g', (g ++ l).dropWhile (· != '\n') = g' ++ l ∧ '\n' ∈ g' ∧ g' ⊆ g := by
      intro g l hm
      have hm' : '\n' ∈ g.dropWhile (· != '\n') := by
        rw [← List.takeWhile_append_dropWhile (p := (· != '\n')) (l := g), List.mem_append] at hm
        rcases hm with hm | hm
        · simpa using List.mem_takeWhile_imp hm
        · exact hm
      refine ⟨_, ?_, hm', (List.dropWhile_suffix _).subset⟩
      rw [List.dropWhile_append, if_neg]
      simpa using List.ne_nil_of_mem hm'
    obtain ⟨k, hk, hm, hsub⟩ := hdrop a hline
    obtain ⟨k', hk', hm', hsub'⟩ := hdrop b hline'
    rw [hk, hk']
    exact .gap (fun c hc => hg c (hsub hc)) (fun c hc => hg' c (hsub' hc)) hm hm' h

end Respaced

theorem splitBlock_blanks {g : List Char} (hg : ∀ c ∈ g, isBlank c = true) (rest : List Char) :
    (splitBlock (g ++ rest)).2 = (splitBlock rest).2 := by
  induction g with
  | nil => rfl
  | cons c g ih =>
    obtain ⟨hc, hg⟩ := List.forall_mem_cons.1 hg
    have hstar : c ≠ '*' := by
      rintro rfl
      cases hc
    rw [List.cons_append, splitBlock.eq_3 _ _ fun _ h => absurd h hstar, ← ih hg]

/-- A comment ends at the same place. -/
theorem Respaced.block {a b : List Char} (h : Respaced a b) :
    Respaced (Glsl.splitBlock a).2 (Glsl.splitBlock b).2 := by
  induction h with
  | @ends a b ha hb =>
    have hnone : ∀ {l : List Char}, (∀ c ∈ l, isBlank c = true) → (Glsl.splitBlock l).2 = [] := by
      intro l hl
      have := splitBlock_blanks hl []
      rwa [List.append_nil] at this
    rw [hnone ha, hnone hb]
    exact .refl []
  | @char c a b h ih =>
    by_cases hclose : c = '*' ∧ a.head?.any (· == '/') = true
    · obtain ⟨rfl, hslash⟩ := hclose
      obtain ⟨d, hd, he⟩ := (Option.any_eq_true _ _).1 hslash
      obtain ⟨a', rfl⟩ := List.head?_eq_some_iff.1 hd
      obtain rfl := beq_iff_eq.1 he
      obtain ⟨b', rfl, h'⟩ := h.eq_cons (by decide)
      exact h'
    · have hslash : ∀ c : Char, isBlank c = true → (c == '/') = false := fun c hc =>
        beq_eq_false_iff_ne.2 (ne_of_isBlank hc (by decide))
      have hopen : ∀ {l : List Char}, l.head?.any (· == '/') = a.head?.any (· == '/') →
          (Glsl.splitBlock (c :: l)).2 = (Glsl.splitBlock l).2 := by
        intro l hl
        rw [Glsl.splitBlock.eq_3]
        rintro rest rfl rfl
        exact hclose ⟨rfl, hl ▸ rfl⟩
      rw [hopen rfl, hopen (h.head?_any hslash).symm]
      exact ih
  | gap hg hg' _ _ _ ih =>
    rw [splitBlock_blanks hg, splitBlock_blanks hg']
    exact ih

theorem startsNumber_respaced {before : Option Char} {c : Char} {a b : List Char}
    (h : Respaced a b) : startsNumber before c a = startsNumber before c b := by
  have hdigit : ∀ c : Char, isBlank c = true → c.isDigit = false := by
    intro c hc
    have halphanum := isAlphanum_of_isBlank hc
    unfold Char.isAlphanum at halphanum
    exact (Bool.or_eq_false_iff.1 halphanum).2
  unfold startsNumber
  rw [h.head?_any hdigit]

theorem noComment_respaced {c : Char} {a b : List Char} (h : Respaced a b)
    (hc : NoComment c a) : NoComment c b := by
  have hkeep : ∀ d : Char, isBlank d = false → b.head? = some d → a.head? = some d := by
    intro d hd hb
    have hany := h.head?_any (p := (· == d)) fun c hc => beq_eq_false_iff_ne.2 (ne_of_isBlank hc hd)
    rw [hb, Option.any_some, beq_self_eq_true] at hany
    obtain ⟨d', ha, he⟩ := (Option.any_eq_true _ _).1 hany
    rw [ha, beq_iff_eq.1 he]
  exact fun hs => ⟨fun hb => (hc hs).1 (hkeep '/' (by decide) hb),
    fun hb => (hc hs).2 (hkeep '*' (by decide) hb)⟩

/-- Other blanks around newlines make no difference for words. -/
theorem wordsAfter_respaced (before : Option Char) (a : List Char) :
    ∀ b, Respaced a b → wordsAfter before a = wordsAfter before b := by
  induction before, a using scan.induct with
  | case1 before =>
    intro b h
    have hb := wordsAfter_blanks before h.blanks_of_nil []
    rw [List.append_nil] at hb
    exact hb.symm
  | case2 before rest ih =>
    intro b h
    obtain ⟨b', rfl, hb'⟩ := h.eq_cons (by decide)
    obtain ⟨b, rfl, hb⟩ := hb'.eq_cons (by decide)
    unfold wordsAfter at ih ⊢
    rw [scan_line, scan_line]
    exact ih _ hb.line
  | case3 before rest ih =>
    intro b h
    obtain ⟨b', rfl, hb'⟩ := h.eq_cons (by decide)
    obtain ⟨b, rfl, hb⟩ := hb'.eq_cons (by decide)
    unfold wordsAfter at ih ⊢
    rw [scan_block, scan_block]
    exact ih _ hb.block
  | case4 before c rest _ _ hn number ih =>
    intro b h
    have hc : isBlank c = false := by
      by_contra hblank
      rw [startsNumber_blank (by simpa using hblank)] at hn
      cases hn
    obtain ⟨b, rfl, hb⟩ := h.eq_cons hc
    obtain ⟨hnumber, hrest⟩ := hb.splitNumber c
    have hn' : startsNumber before c b = true := by
      rw [← startsNumber_respaced hb]
      exact hn
    unfold wordsAfter at ih ⊢
    rw [scan_number hn, scan_number hn', ← hnumber]
    exact ih _ hrest
  | case5 before c rest _ _ _ hw name ih =>
    intro b h
    have hc : isBlank c = false := isBlank_of_isWordChar (isWordChar_of_isWordStart hw)
    obtain ⟨b, rfl, hb⟩ := h.eq_cons hc
    obtain ⟨hname, hrest⟩ := hb.span fun _ => isWordChar_of_isBlank
    unfold wordsAfter at ih ⊢
    rw [scan_word hw, scan_word hw, ← hname, List.filterMap_cons, List.filterMap_cons, ih _ hrest]
  | case6 before c rest hline hblock hn hw ih =>
    intro b h
    by_cases hc : isBlank c = true
    · simp only [hc, dite_eq_ite, if_true] at ih
      have hskip : wordsAfter before (c :: rest) = wordsAfter before rest :=
        wordsAfter_blanks before (List.forall_mem_singleton.2 hc) rest
      rw [hskip]
      generalize hl : c :: rest = l at h
      cases h with
      | ends ha hb =>
        subst hl
        exact ih b (.ends (fun d hd => ha d (List.mem_cons_of_mem c hd)) hb)
      | char _ h =>
        cases hl
        rw [ih _ h]
        exact (wordsAfter_blanks before (List.forall_mem_singleton.2 hc) _).symm
      | @gap g g' a b hg hg' hline _ h =>
        rcases g with _ | ⟨d, g⟩
        · cases hline
        · cases hl
          rw [ih _ (h.append g), wordsAfter_blanks before (List.forall_mem_cons.1 hg).2,
            wordsAfter_blanks before hg']
    · have hc' : isBlank c = false := by simpa using hc
      obtain ⟨b, rfl, hb⟩ := h.eq_cons hc'
      have hn' : startsNumber before c b = false := by
        rw [← startsNumber_respaced hb]
        simpa using hn
      have hslash := noComment_of_forall hline hblock
      rw [wordsAfter, scan_other hslash (by simpa using hn) (by simpa using hw), wordsAfter,
        scan_other (noComment_respaced hb hslash) hn' (by simpa using hw)]
      exact ih b hb

/-! ## Lines -/

theorem exists_trimmed (cs : List Char) : ∃ lead trail, cs = lead ++ (trimBlanks cs ++ trail) ∧
    (∀ c ∈ lead, isBlank c = true) ∧ ∀ c ∈ trail, isBlank c = true := by
  have hends : cs.dropWhile isBlank = trimBlanks cs ++
      ((cs.dropWhile isBlank).reverse.takeWhile isBlank).reverse := by
    rw [trimBlanks, ← List.reverse_append, List.takeWhile_append_dropWhile, List.reverse_reverse]
  refine ⟨cs.takeWhile isBlank, ((cs.dropWhile isBlank).reverse.takeWhile isBlank).reverse, ?_,
    fun _ hc => List.mem_takeWhile_imp hc, fun _ hc => ?_⟩
  · rw [← hends, List.takeWhile_append_dropWhile]
  · exact List.mem_takeWhile_imp (List.mem_reverse.1 hc)

/-- The lines of a text are what stands behind the newlines of it. -/
theorem flatMap_lines (cs : List Char) : (lines cs).flatMap ('\n' :: ·) = '\n' :: cs := by
  induction cs with
  | nil => rfl
  | cons c cs ih =>
    unfold lines
    split_ifs with hc
    · rw [List.flatMap_cons, ih, hc]
      rfl
    · rcases hlines : lines cs with _ | ⟨line, more⟩
      · rw [hlines] at ih
        cases ih
      · rw [hlines] at ih
        simp only [List.flatMap_cons, List.cons_append, List.cons.injEq, true_and] at ih ⊢
        exact ih

/-- A line between an indent and a newline without the blanks at its ends, and nothing for a line
of blanks. -/
def freshLine (indent line : List Char) : List Char :=
  if trimBlanks line = [] then [] else indent ++ (trimBlanks line ++ ['\n'])

/-- Only blanks change when lines are written afresh. -/
theorem respaced_lines {indent : List Char} (hindent : ∀ c ∈ indent, isBlank c = true) :
    ∀ (l : List (List Char)) {g : List Char}, (∀ c ∈ g, isBlank c = true) →
      Respaced (g ++ l.flatMap ('\n' :: ·)) ('\n' :: l.flatMap (freshLine indent))
  | [], g, hg => .ends (by simpa using hg) (List.forall_mem_singleton.2 (by decide))
  | line :: l, g, hg => by
    obtain ⟨lead, trail, hcut, hlead, htrail⟩ := exists_trimmed line
    have hgap : ∀ {k : List Char}, (∀ c ∈ k, isBlank c = true) →
        ∀ c ∈ g ++ '\n' :: k, isBlank c = true := fun hk =>
      List.forall_mem_append.2 ⟨hg, List.forall_mem_cons.2 ⟨by decide, hk⟩⟩
    rw [List.flatMap_cons, List.flatMap_cons, freshLine]
    split_ifs with hblank
    · rw [hblank, List.nil_append] at hcut
      have hline : ∀ c ∈ line, isBlank c = true :=
        hcut ▸ List.forall_mem_append.2 ⟨hlead, htrail⟩
      have ih := respaced_lines hindent l (hgap hline)
      simpa using ih
    · have ih := respaced_lines hindent l htrail
      have hbehind := Respaced.gap (hgap hlead)
        (List.forall_mem_cons.2 ⟨by decide, hindent⟩) (by simp) List.mem_cons_self
        (ih.append (trimBlanks line))
      have hbefore : g ++ ('\n' :: line ++ l.flatMap ('\n' :: ·)) =
          g ++ '\n' :: lead ++ (trimBlanks line ++ (trail ++ l.flatMap ('\n' :: ·))) := by
        nth_rewrite 1 [hcut]
        simp
      rw [hbefore]
      simpa using hbehind

/-- Fresh lines have the words of the text. -/
theorem wordsAfter_freshLines {indent : List Char} (hindent : ∀ c ∈ indent, isBlank c = true)
    (cs : List Char) :
    wordsAfter none ((lines cs).flatMap (freshLine indent)) = wordsAfter none cs := by
  have hnewline : ∀ l, wordsAfter none ('\n' :: l) = wordsAfter none l :=
    fun l => wordsAfter_blanks none (g := ['\n']) (List.forall_mem_singleton.2 (by decide)) l
  have hlines := respaced_lines hindent (lines cs) (g := []) nofun
  rw [List.nil_append, flatMap_lines] at hlines
  rw [← hnewline, ← wordsAfter_respaced none _ _ hlines, hnewline]

end Glsl

/-- The lines of a block as they stand in the main function. -/
def StageSource.blockText (code : String) : String :=
  String.join ((Glsl.indented code indent).map fun line => indent ++ line ++ "\n")

namespace StageSource

theorem toList_blockText (code : String) : (blockText code).toList =
    (Glsl.lines code.toList).flatMap (Glsl.freshLine (indent ++ indent).toList) := by
  rw [blockText, Glsl.indented, String.toList_join]
  induction Glsl.lines code.toList with
  | nil => rfl
  | cons line l ih =>
    simp only [List.flatMap_map, List.map_map, List.flatMap_cons, List.map_cons] at ih ⊢
    rw [Glsl.freshLine, ← ih]
    split_ifs with hblank
    · simp [hblank]
    · simp [hblank]

/-- The lines of a block have the words of its code. -/
theorem words_blockText (code : String) : Glsl.words (blockText code) = Glsl.words code := by
  have hindent : ∀ c ∈ (indent ++ indent).toList, isBlank c = true := by
    rw [← List.all_eq_true]
    rfl
  have h := Glsl.wordsAfter_freshLines hindent code.toList
  rw [← toList_blockText] at h
  exact h

/-- The lines of a block stand in the source of the stage. -/
theorem exists_blockText {s : StageSource} {code : String} (h : .block code ∈ s.statements) :
    ∃ front behind, s.render = front ++ blockText code ++ behind := by
  obtain ⟨earlier, later, hsplit⟩ := List.append_of_mem h
  refine ⟨s.opening ++ written earlier ++ (indent ++ "\x7b" ++ "\n"),
    (indent ++ "\x7d" ++ "\n") ++ written later ++ "\x7d\n", ?_⟩
  rw [render_eq, hsplit, written_append, ← List.singleton_append, written_append]
  simp only [written, blockText, List.flatMap_singleton, Statement.lines, List.cons_append,
    List.map_cons, List.map_append, List.map_nil, String.join_append, String.join_cons,
    String.join_nil, String.append_assoc, String.append_empty]

end StageSource

end ShaderGraph
