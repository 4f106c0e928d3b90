import ShaderGraph.Proofs.Numerals
import ShaderGraph.Proofs.Readers
import ShaderGraph.Ron.Reader

/-!
# Lexemes read back

What is written as a name, a number or a string is read as the same name, number or string, if a
delimiter follows or nothing at all (`Ron.Stops`).
-/

namespace ShaderGraph.Ron

open Parse

/-! ## What may follow -/

def delimiters : List Char := [',', ':', '(', ')', ']']

/-- A delimiter follows, or nothing. -/
def Stops (cs : List Char) : Prop := ∀ c, cs.head? = some c → c ∈ delimiters

/-- The next character is neither blank nor the start of a comment. -/
def Solid (cs : List Char) : Prop := ∀ c, cs.head? = some c → isBlank c = false ∧ c ≠ '/'

theorem solid_nil : Solid [] := nofun

theorem stops_nil : Stops [] := nofun

theorem stops_cons {c : Char} (h : c ∈ delimiters) (cs : List Char) : Stops (c :: cs) := by
  rintro _ ⟨⟩
  exact h

theorem any_isMarkedChar : delimiters.any isMarkedChar = false := by decide +kernel

theorem any_isNameRest : delimiters.any isNameRest = false := by
  refine List.any_eq_false.2 fun c hc hrest => List.any_eq_false.1 any_isMarkedChar c hc ?_
  rw [isMarkedChar, hrest, Bool.or_true]

section Delimiters

variable {cs : List Char} (h : Stops cs)
include h

theorem Stops.forall {p : Char → Bool} (hp : delimiters.any p = false) :
    ∀ c, cs.head? = some c → p c = false := fun c hc =>
  Bool.eq_false_iff.2 (List.any_eq_false.1 hp c (h c hc))

theorem Stops.any_eq_false {p : Char → Bool} (hp : delimiters.any p = false) :
    cs.head?.any p = false := by
  rcases hc : cs.head? with _ | c
  · rfl
  · exact h.forall hp c hc

theorem Stops.isNameRest : cs.head?.any isNameRest = false := h.any_eq_false any_isNameRest

theorem Stops.isMarkedChar : cs.head?.any isMarkedChar = false := h.any_eq_false any_isMarkedChar

theorem Stops.solid : Solid cs := by
  refine fun c hc => ⟨h.forall (by decide) c hc, ?_⟩
  rintro rfl
  exact absurd (h '/' hc) (by decide)

end Delimiters

/-! ## Blanks -/

/-- The text consists of blanks. -/
def Blanks (cs : List Char) : Prop := ∀ c ∈ cs, isBlank c = true

instance : DecidablePred Blanks := fun cs =>
  decidable_of_iff (cs.all isBlank = true) List.all_eq_true

theorem blanks_nil : Blanks [] := List.forall_mem_nil _

theorem skip_cons {c : Char} (h : c ≠ '/') (cs : List Char) : Gap.plain.skip (c :: cs) =
    if isBlank c then Gap.plain.skip cs else some (c :: cs) := by
  rw [Gap.skip]
  · rw [if_neg h]
  · exact fun _ hc _ => h hc
  · exact fun _ hc _ => h hc

theorem skip_of_solid {cs : List Char} (h : Solid cs) : Gap.plain.skip cs = some cs := by
  rcases cs with _ | ⟨c, cs⟩
  · rw [Gap.skip]
  · obtain ⟨hblank, hslash⟩ := h c rfl
    rw [skip_cons hslash, if_neg (by rw [hblank]; exact Bool.false_ne_true)]

theorem Blanks.skip {ws : List Char} (h : Blanks ws) (cs : List Char) :
    Gap.plain.skip (ws ++ cs) = Gap.plain.skip cs := by
  induction ws with
  | nil => rfl
  | cons c ws ih =>
    obtain ⟨hc, hws⟩ := List.forall_mem_cons.1 h
    have hslash : c ≠ '/' := by
      rintro rfl
      cases hc
    rw [List.cons_append, skip_cons hslash, if_pos hc, ih hws]

theorem reads_skipBlanks {ws cs : List Char} (hws : Blanks ws) (hcs : Solid cs) :
    skipBlanks.Reads (ws ++ cs) () cs := by
  unfold Reads skipBlanks
  rw [hws.skip, skip_of_solid hcs]
  rfl

theorem Solid.reads_skipBlanks {cs : List Char} (h : Solid cs) : skipBlanks.Reads cs () cs :=
  Ron.reads_skipBlanks blanks_nil h

theorem reads_comma {ws cs : List Char} (hws : Blanks ws) (hcs : Solid cs) :
    comma.Reads (',' :: (ws ++ cs)) true cs := by
  have hsolid : Solid (',' :: (ws ++ cs)) := (stops_cons (by decide) _).solid
  refine hsolid.reads_skipBlanks.bind ((reads_peek _).bind ?_)
  rw [if_pos (by rfl)]
  exact (reads_char _ _).bind ((reads_skipBlanks hws hcs).bind (reads_pure _ _))

theorem reads_comma_false {cs : List Char} (hcs : Solid cs) (h : cs.head? ≠ some ',') :
    comma.Reads cs false cs := by
  refine hcs.reads_skipBlanks.bind ((reads_peek _).bind ?_)
  rw [if_neg h]
  exact reads_pure _ _

/-! ## Words that are not ahead -/

/-- The character is no delimiter. -/
def isInner (c : Char) : Bool := !delimiters.contains c

theorem Stops.not_prefix_word {w rest : List Char} (h : Stops rest)
    (hw : w.head?.any isInner = true) : ¬ w <+: rest := by
  rintro ⟨t, rfl⟩
  rcases w with _ | ⟨c, w⟩
  · cases hw
  · have hc := h c rfl
    rw [List.head?_cons, Option.any_some, isInner, List.contains_iff_mem.2 hc] at hw
    cases hw

/-- A text that starts with characters of a kind, up to a delimiter, has no word in front that
leaves the kind at another character. -/
theorem not_prefix_of_mark {p : Char → Bool} {w a rest : List Char} (ha : ∀ c ∈ a, p c = true)
    (hrest : Stops rest) (hp : delimiters.any p = false)
    (hw : (w.dropWhile p).head?.any isInner = true) : ¬ w <+: a ++ rest := by
  rintro ⟨t, ht⟩
  have hdrop := congrArg (List.dropWhile p) ht
  have hne : (w.dropWhile p).isEmpty = false := by
    rcases hcs : w.dropWhile p with _ | ⟨c, tail⟩
    · rw [hcs] at hw
      cases hw
    · rfl
  rw [dropWhile_append ha (hrest.forall hp), List.dropWhile_append, hne] at hdrop
  exact hrest.not_prefix_word hw ⟨t, hdrop⟩

/-! ## Names -/

/-- The text is a name. -/
def IsIdent (cs : List Char) : Prop :=
  cs.head?.any startsName = true ∧ ∀ c ∈ cs, isNameRest c = true

/-- The character is an underscore or a letter of the alphabet. -/
def isLetter (c : Char) : Bool :=
  c == '_' || [(0x41, 0x5A), (0x61, 0x7A)].any fun run => run.1 ≤ c.toNat && c.toNat ≤ run.2

section Letters

variable {c : Char} (h : isLetter c = true)
include h

open List in
theorem isNameRest_of_isLetter : isNameRest c = true := by
  have hmark : (0x5F, 0x5F) ∈ nameRestRuns := mem_cons_of_mem _ (mem_cons_of_mem _ mem_cons_self)
  have hruns : [(0x41, 0x5A), (0x61, 0x7A)] ⊆ nameRestRuns := by
    simp only [cons_subset, nil_subset, and_true]
    exact ⟨mem_cons_of_mem _ mem_cons_self,
      mem_cons_of_mem _ (mem_cons_of_mem _ (mem_cons_of_mem _ mem_cons_self))⟩
  rcases Bool.or_eq_true_iff.1 h with hc | hc
  · rw [beq_iff_eq.1 hc]
    exact any_eq_true.2 ⟨_, hmark, rfl⟩
  · obtain ⟨run, hrun, hin⟩ := any_eq_true.1 hc
    exact any_eq_true.2 ⟨run, hruns hrun, hin⟩

open List in
theorem startsName_of_isLetter : startsName c = true := by
  have hruns : [(0x41, 0x5A), (0x61, 0x7A)] ⊆ nameStartRuns := by
    simp only [cons_subset, nil_subset, and_true]
    exact ⟨mem_cons_self, mem_cons_of_mem _ mem_cons_self⟩
  rcases Bool.or_eq_true_iff.1 h with hc | hc
  · exact Bool.or_eq_true_iff.2 (.inl hc)
  · obtain ⟨run, hrun, hin⟩ := any_eq_true.1 hc
    exact Bool.or_eq_true_iff.2 (.inr (any_eq_true.2 ⟨run, hruns hrun, hin⟩))

end Letters

/-- Letters and underscores make a name. -/
theorem IsIdent.of_letters {c : Char} {cs : List Char} (h : (c :: cs).all isLetter = true) :
    IsIdent (c :: cs) :=
  ⟨startsName_of_isLetter (List.all_eq_true.1 h c List.mem_cons_self),
    fun d hd => isNameRest_of_isLetter (List.all_eq_true.1 h d hd)⟩

/-- The openings of strings hold a quote or a mark, which no name does. -/
theorem not_isStringOpening {n rest : List Char} (h : IsIdent n) (hrest : Stops rest) :
    isStringOpening (n ++ rest) = false := by
  refine List.any_eq_false.2 fun w hw => ?_
  rw [List.isPrefixOf_iff_prefix]
  refine not_prefix_of_mark h.2 hrest any_isNameRest ?_
  revert w
  decide +kernel

theorem reads_name {n : String} (h : IsIdent n.toList) (strict : Bool) {rest : List Char}
    (hrest : Stops rest) : (name strict).Reads (n.toList ++ rest) n rest := by
  have hopening := not_isStringOpening h hrest
  obtain ⟨hhead, hall⟩ := h
  rcases hn : n.toList with _ | ⟨c, cs⟩
  · rw [hn] at hhead
    cases hhead
  rw [hn, List.head?_cons, Option.any_some] at hhead
  rw [hn] at hall hopening
  have hcs := (List.forall_mem_cons.1 hall).2
  have hstop := hrest.forall any_isNameRest
  refine (reads_get _).bind ?_
  rw [hopening]
  simp only [Bool.false_eq_true, if_false, List.cons_append]
  split
  · -- no name with a mark in front
    rename_i marked heq
    obtain ⟨rfl, htail⟩ := List.cons_eq_cons.1 heq
    rcases cs with _ | ⟨d, cs⟩
    · exact absurd (hrest '#' (by rw [show rest = '#' :: marked from htail]; rfl)) (by decide)
    · obtain ⟨rfl, -⟩ := List.cons_eq_cons.1 htail
      have := hcs '#' List.mem_cons_self
      exact absurd this (by decide +kernel)
  · rename_i d tail _ heq
    obtain ⟨rfl, rfl⟩ := List.cons_eq_cons.1 heq
    rw [hhead, takeWhile_append hcs hstop, dropWhile_append hcs hstop, hrest.isMarkedChar]
    simp only [Bool.not_true, Bool.and_false, Bool.false_eq_true, if_false]
    rw [← hn, String.ofList_toList]
    rfl
  · rename_i heq
    cases heq

/-! ## Words -/

theorem reads_tryWord {word : String} {rest : List Char} (hrest : Stops rest) :
    (tryWord word).Reads (word.toList ++ rest) true rest := by
  unfold Reads tryWord
  simp only [← String.length_toList, List.drop_left, hrest.isNameRest]
  rw [if_pos]
  simp

theorem reads_tryWord_false {word : String} {cs : List Char} (h : ¬ word.toList <+: cs) :
    (tryWord word).Reads cs false cs := by
  unfold Reads tryWord
  simp only [← List.isPrefixOf_iff_prefix, Bool.not_eq_true] at h
  rw [h]
  rfl

theorem reads_tryWords_false {words : List String} {cs : List Char}
    (h : ∀ w ∈ words, ¬ w.toList <+: cs) : (tryWords words).Reads cs false cs := by
  induction words with
  | nil => exact reads_pure _ _
  | cons w words ih =>
    obtain ⟨hw, hwords⟩ := List.forall_mem_cons.1 h
    exact (reads_tryWord_false hw).bind (ih hwords)

/-! ## Numbers -/

theorem isDigitChar_of_isDigit {c : Char} (h : c.isDigit = true) : isDigitChar c = true := by
  simp [isDigitChar, hexDigit?, h]

theorem ofDigits?_eq {digits : List Char} (h : AllDigits digits) :
    ofDigits? 10 digits = some (ofDigits digits) := by
  have hmark : digits.filter (· != '_') = digits := by
    refine List.filter_eq_self.2 fun c hc => bne_iff_ne.2 ?_
    rintro rfl
    exact absurd (h '_' hc) (by decide)
  have hfold : ∀ (cs : List Char) (n : Nat), AllDigits cs → cs.foldlM (fun n c => do
      let d ← hexDigit? c
      if d < 10 then some (n * 10 + d) else none) n = some (Nat.ofDigitChars 10 cs n) := by
    intro cs
    induction cs with
    | nil => exact fun n _ => rfl
    | cons c cs ih =>
      intro n hcs
      obtain ⟨hc, hcs⟩ := List.forall_mem_cons.1 hcs
      have hlt : c.toNat - '0'.toNat < 10 := by
        have := Char.isDigit_iff_toNat.1 hc
        simp only [Char.reduceToNat] at this ⊢
        omega
      have hstep : (do
          let d ← hexDigit? c
          if d < 10 then some (n * 10 + d) else none) =
            some (10 * n + (c.toNat - '0'.toNat)) := by
        rw [show hexDigit? c = some (c.toNat - '0'.toNat) from if_pos hc, Nat.mul_comm 10 n]
        exact if_pos hlt
      rw [List.foldlM_cons, hstep]
      exact ih _ hcs
  rw [ofDigits?, hmark]
  exact hfold digits 0 h

theorem reads_sign_none {cs : List Char} (hminus : cs.head? ≠ some '-')
    (hplus : cs.head? ≠ some '+') : sign.Reads cs false cs := by
  refine (reads_peek cs).bind ?_
  split
  · exact absurd ‹_› hminus
  · exact absurd ‹_› hplus
  · exact reads_pure _ _

section Whole

variable {digits rest : List Char} (hdigits : AllDigits digits) (hrest : Stops rest)
include hdigits hrest

theorem reads_base_ten : base.Reads (digits ++ rest) 10 (digits ++ rest) := by
  have hx : ¬ "0x".toList <+: digits ++ rest :=
    not_prefix_of_mark hdigits hrest (by decide) rfl
  have hb : ¬ "0b".toList <+: digits ++ rest :=
    not_prefix_of_mark hdigits hrest (by decide) rfl
  have ho : ¬ "0o".toList <+: digits ++ rest :=
    not_prefix_of_mark hdigits hrest (by decide) rfl
  refine (reads_tryText_false hx).bind ?_
  refine (reads_tryText_false hb).bind ?_
  exact (reads_tryText_false ho).bind (reads_pure _ _)

theorem reads_whole (hne : digits ≠ []) :
    whole.Reads (digits ++ rest) ⟨false, ofDigits digits, 10⟩ rest := by
  obtain ⟨c, cs, rfl⟩ := List.exists_cons_of_ne_nil hne
  have hc : c.isDigit = true := hdigits c List.mem_cons_self
  have hsign : ∀ d, d.isDigit = false → ((c :: cs) ++ rest).head? ≠ some d := by
    rintro d hd ⟨⟩
    exact Bool.false_ne_true (hd.symm.trans hc)
  refine (reads_sign_none (hsign '-' rfl) (hsign '+' rfl)).bind ?_
  refine (reads_base_ten hdigits hrest).bind ?_
  refine (reads_span (fun d hd => isDigitChar_of_isDigit (hdigits d hd))
    (hrest.forall (by decide))).bind ?_
  have hstart : ¬ ((c :: cs).isEmpty || decide ((c :: cs).head? = some '_')) = true := by
    have : c ≠ '_' := by
      rintro rfl
      cases hc
    simp [this]
  simp only
  rw [if_neg hstart, ofDigits?_eq hdigits]
  exact reads_pure _ _

end Whole

theorem reads_word32 (n : UInt32) {rest : List Char} (hrest : Stops rest) :
    word32.Reads (Nat.toDigits 10 n.toNat ++ rest) n rest := by
  have hwithin : (⟨false, n.toNat, 10⟩ : Whole).within 0 (UInt32.size - 1) = true :=
    decide_eq_true (Nat.le_pred_of_lt n.toNat_lt_size)
  have hsuffix : ¬ "u32".toList <+: rest := hrest.not_prefix_word rfl
  have hwhole := reads_whole (allDigits_toDigits n.toNat) hrest Nat.toDigits_ne_nil
  rw [ofDigits_toDigits] at hwhole
  refine hwhole.bind ?_
  simp only
  rw [hwithin]
  refine Reads.bind (a := false) (t := rest) ?_ ?_
  · rw [Whole.trySuffix, if_pos (.inl rfl)]
    exact reads_tryWord_false hsuffix
  · rw [UInt32.ofNat_toNat]
    exact reads_pure _ _

/-! ### Floats -/

section Floats

variable {f : Format} {suffixes : List String} {cs rest : List Char}

theorem reads_suffixed_false {word : String} (h : ¬ word.toList <+: cs) :
    (tryWords (word :: suffixes.map (word ++ ·))).Reads cs false cs := by
  refine reads_tryWords_false (List.forall_mem_cons.2 ⟨h, List.forall_mem_map.2 ?_⟩)
  intro suffix _ hahead
  rw [String.toList_append] at hahead
  exact h ((List.prefix_append _ _).trans hahead)

theorem reads_special?_none : ∀ {table : List (String × Binary f)},
    (∀ entry ∈ table, ¬ entry.1.toList <+: cs) → (special? f suffixes table).Reads cs none cs
  | [], _ => reads_pure _ _
  | (_, _) :: _, h => by
    obtain ⟨hword, htable⟩ := List.forall_mem_cons.1 h
    exact (reads_suffixed_false hword).bind (reads_special?_none htable)

theorem reads_special? (hrest : Stops rest) {word : String} {x : Binary f}
    {after : List (String × Binary f)} : ∀ {before : List (String × Binary f)},
    (∀ entry ∈ before, ¬ entry.1.toList <+: word.toList ++ rest) →
      (special? f suffixes (before ++ (word, x) :: after)).Reads (word.toList ++ rest) (some x) rest
  | [], _ => by
    refine Reads.bind (a := true) (t := rest) ((reads_tryWord hrest).bind (reads_pure _ _)) ?_
    exact reads_pure _ _
  | (_, _) :: _, h => by
    obtain ⟨hword, hbefore⟩ := List.forall_mem_cons.1 h
    exact (reads_suffixed_false hword).bind (reads_special? hrest hbefore)

theorem withoutUnderscores_eq (allowed : Bool) (h : '_' ∉ cs) :
    withoutUnderscores allowed cs = some cs := by
  induction cs generalizing allowed with
  | nil => rfl
  | cons c cs ih =>
    rw [List.mem_cons, not_or] at h
    rw [withoutUnderscores, ih _ h.2]
    · rfl
    · exact fun hmark => h.1 hmark.symm

/-- Words that are written for numbers have no others in front of them. -/
theorem not_prefix_append {v w : List Char} (hv : ¬ v <+: w) (hw : ¬ w <+: v) :
    ¬ v <+: w ++ rest := fun h =>
  (List.prefix_or_prefix_of_prefix h (List.prefix_append w rest)).elim hv hw

theorem isFloatChar_of_isDigit {c : Char} (h : c.isDigit = true) : isFloatChar c = true := by
  simp [isFloatChar, h]

theorem reads_float_finite (hf : f.Regular) (s : Bool) (p : Fin f.places)
    (hsuffixes : ∀ suffix ∈ suffixes, suffix.toList.head?.any isInner = true)
    (hrest : Stops rest) : (float f suffixes).Reads
      ((Document.layout.write (.finite s p : Binary f)).toList ++ rest) (.finite s p) rest := by
  obtain ⟨whole, fraction, htext, hne, hwhole, hfraction, hread⟩ :=
    Document.exists_parts_write hf s p
  rw [htext]
  set text := minus s (whole ++ '.' :: fraction) with hdef
  have hfloat : ∀ c ∈ text, isFloatChar c = true := by
    intro c hc
    rcases mem_minus hwhole hfraction hc with hc | rfl | rfl
    · exact isFloatChar_of_isDigit hc
    · rfl
    · rfl
  have hmark : '_' ∉ text := by
    intro hc
    rcases mem_minus hwhole hfraction hc with h | h | h <;> cases h
  have hdelimiters : delimiters.any isFloatChar = false := by decide
  have hspecial : ∀ entry ∈ specials f, ¬ entry.1.toList <+: text ++ rest := by
    have hword := fun w (hw : (List.dropWhile isFloatChar w).head?.any isInner = true) =>
      not_prefix_of_mark hfloat hrest hdelimiters hw
    simp only [specials, List.forall_mem_cons]
    exact ⟨hword _ rfl, hword _ rfl, hword _ rfl, hword _ rfl, hword _ rfl, hword _ rfl,
      List.forall_mem_nil _⟩
  refine (reads_special?_none hspecial).bind ?_
  refine (reads_span hfloat (hrest.forall hdelimiters)).bind ?_
  rw [withoutUnderscores_eq false hmark, Option.bind_some,
    Decimal.ofChars?_parts s hne hwhole hfraction]
  simp only [hread]
  exact (reads_tryWords_false fun suffix hm =>
    hrest.not_prefix_word (hsuffixes suffix hm)).bind (reads_pure _ _)

/-- A word for infinity or for what is not a number is found behind others. -/
theorem reads_float_special (word : String) {x : Binary f} (before : List (String × Binary f))
    {after : List (String × Binary f)} (hsplit : specials f = before ++ (word, x) :: after)
    (others : List String) (hothers : before.map Prod.fst = others)
    (hword : ∀ v ∈ others, ¬ v.toList <+: word.toList ∧ ¬ word.toList <+: v.toList)
    (hrest : Stops rest) : (float f suffixes).Reads (word.toList ++ rest) x rest := by
  have hbefore : ∀ entry ∈ before, ¬ entry.1.toList <+: word.toList ++ rest := by
    intro entry hm
    obtain ⟨hv, hw⟩ := hword entry.1 (hothers ▸ List.mem_map_of_mem hm)
    exact not_prefix_append hv hw
  have hspecial : (special? f suffixes (specials f)).Reads (word.toList ++ rest) (some x) rest := by
    rw [hsplit]
    exact reads_special? hrest hbefore
  exact hspecial.bind (reads_pure _ _)

/-- Every number is read as it was written: zeros with their signs, infinities, and even what is
not a number. -/
theorem reads_float (hf : f.Regular) (x : Binary f)
    (hsuffixes : ∀ suffix ∈ suffixes, suffix.toList.head?.any isInner = true)
    (hrest : Stops rest) :
    (float f suffixes).Reads ((Document.layout.write x).toList ++ rest) x rest := by
  rcases x with ⟨s, p⟩ | s | s
  · exact reads_float_finite hf s p hsuffixes hrest
  · cases s
    · exact reads_float_special "inf" [] rfl [] rfl (List.forall_mem_nil _) hrest
    · exact reads_float_special "-inf" [_, _] rfl ["inf", "+inf"] rfl (by decide) hrest
  · cases s
    · exact reads_float_special "NaN" [_, _, _] rfl ["inf", "+inf", "-inf"] rfl (by decide) hrest
    · exact reads_float_special "-NaN" [_, _, _, _, _] rfl ["inf", "+inf", "-inf", "NaN", "+NaN"]
        rfl (by decide) hrest

end Floats

end ShaderGraph.Ron
