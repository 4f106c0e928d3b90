import Mathlib
import ShaderGraph.Proofs.Readers
import ShaderGraph.Proofs.Traversal

/-!
# What a scan finds

A scan cuts a text into pieces and drops nothing (`text_scan`). When words of a text are replaced
by single words, or by a word in brackets after another one, scanning the result finds the new
words in the places of the old ones and everything else as before (`scan_fill`).
-/

namespace ShaderGraph.Glsl

/-! ## Steps of a scan -/

theorem append_splitBlock : ∀ cs : List Char, (splitBlock cs).1 ++ (splitBlock cs).2 = cs := by
  intro cs
  fun_induction splitBlock cs with
  | case1 => rfl
  | case2 rest => rfl
  | case3 c rest hc inside after hs ih =>
    rw [hs] at ih
    simp [ih]

theorem append_splitNumber (last : Char) (cs : List Char) :
    (splitNumber last cs).1 ++ (splitNumber last cs).2 = cs := by
  fun_induction splitNumber last cs with
  | case1 => rfl
  | case2 last c rest hc inside after hs ih =>
    rw [hs] at ih
    simp [ih]
  | case3 => rfl

/-- No comment starts with `c` before `rest`. -/
def NoComment (c : Char) (rest : List Char) : Prop :=
  c = '/' → rest.head? ≠ some '/' ∧ rest.head? ≠ some '*'

theorem scan_line (before : Option Char) (rest : List Char) :
    scan before ('/' :: '/' :: rest) = .other ('/' :: '/' :: rest.takeWhile (· != '\n')) ::
      scan none (rest.dropWhile (· != '\n')) := by
  rw [scan]

theorem scan_block (before : Option Char) (rest : List Char) :
    scan before ('/' :: '*' :: rest) = .other ('/' :: '*' :: (splitBlock rest).1) ::
      scan none (splitBlock rest).2 := by
  rw [scan]

theorem scan_of_noComment (before : Option Char) {c : Char} {rest : List Char}
    (h : NoComment c rest) : scan before (c :: rest) =
      if startsNumber before c rest then
        .other (c :: (splitNumber c rest).1) ::
          scan (c :: (splitNumber c rest).1).getLast? (splitNumber c rest).2
      else if isWordStart c then
        (if before = some '.' then .other (c :: rest.takeWhile isWordChar)
          else .word (c :: rest.takeWhile isWordChar)) ::
          scan (c :: rest.takeWhile isWordChar).getLast? (rest.dropWhile isWordChar)
      else .other [c] :: scan (if isBlank c then before else some c) rest := by
  rw [scan.eq_4]
  · intro r hc hr
    exact (h hc).1 (by rw [hr]; rfl)
  · intro r hc hr
    exact (h hc).2 (by rw [hr]; rfl)

theorem noComment_of_ne {c : Char} {rest : List Char} (h : c ≠ '/') : NoComment c rest :=
  fun hc => absurd hc h

theorem noComment_of_forall {c : Char} {rest : List Char}
    (hline : ∀ r, c = '/' → rest = '/' :: r → False)
    (hblock : ∀ r, c = '/' → rest = '*' :: r → False) : NoComment c rest := by
  refine fun hc => ⟨fun h => ?_, fun h => ?_⟩
  · obtain ⟨l, hl⟩ := List.head?_eq_some_iff.1 h
    exact hline l hc hl
  · obtain ⟨l, hl⟩ := List.head?_eq_some_iff.1 h
    exact hblock l hc hl

theorem startsNumber_ne_slash {before : Option Char} {c : Char} {rest : List Char}
    (h : startsNumber before c rest = true) : c ≠ '/' := by
  rintro rfl
  unfold startsNumber at h
  simp at h

theorem scan_number {before : Option Char} {c : Char} {rest : List Char}
    (h : startsNumber before c rest = true) : scan before (c :: rest) =
      .other (c :: (splitNumber c rest).1) ::
        scan (c :: (splitNumber c rest).1).getLast? (splitNumber c rest).2 := by
  rw [scan_of_noComment before (noComment_of_ne (startsNumber_ne_slash h)), if_pos h]

theorem isDigit_eq_false_of_isAlpha {c : Char} (h : c.isAlpha = true) : c.isDigit = false := by
  simp only [Char.isAlpha, Char.isUpper, Char.isLower, Char.isDigit] at h ⊢
  grind

theorem not_startsNumber_of_isWordStart {c : Char} (h : isWordStart c = true)
    (before : Option Char) (rest : List Char) : startsNumber before c rest = false := by
  have hdigit : c.isDigit = false := by
    rcases Bool.or_eq_true _ _ ▸ h with h | h
    · exact isDigit_eq_false_of_isAlpha h
    · rw [beq_iff_eq.1 h]
      rfl
  have hpoint : (c == '.') = false := by
    rw [beq_eq_false_iff_ne]
    rintro rfl
    revert h
    decide
  unfold startsNumber
  rw [hdigit, hpoint]
  rfl

theorem scan_word {c : Char} (h : isWordStart c = true) (before : Option Char)
    (rest : List Char) : scan before (c :: rest) =
      (if before = some '.' then .other (c :: rest.takeWhile isWordChar)
        else .word (c :: rest.takeWhile isWordChar)) ::
        scan (c :: rest.takeWhile isWordChar).getLast? (rest.dropWhile isWordChar) := by
  have hc : c ≠ '/' := by
    rintro rfl
    revert h
    decide
  rw [scan_of_noComment before (noComment_of_ne hc), not_startsNumber_of_isWordStart h,
    if_neg (by simp), if_pos h]

theorem scan_other {before : Option Char} {c : Char} {rest : List Char} (hc : NoComment c rest)
    (hn : startsNumber before c rest = false) (hw : isWordStart c = false) :
    scan before (c :: rest) = .other [c] :: scan (if isBlank c then before else some c) rest := by
  rw [scan_of_noComment before hc, hn, hw, if_neg (by simp), if_neg (by simp)]

/-- A scan cuts the text into pieces. -/
theorem text_scan (before : Option Char) (cs : List Char) :
    (scan before cs).flatMap Piece.text = cs := by
  fun_induction scan before cs with
  | case1 => rfl
  | case2 before rest ih => simp [Piece.text, ih, List.takeWhile_append_dropWhile]
  | case3 before rest ih => simp [Piece.text, ih, append_splitBlock]
  | case4 before c rest _ _ _ number ih => simp [Piece.text, ih, number, append_splitNumber]
  | case5 before c rest _ _ _ _ name ih =>
    have htext : (if before = some '.' then Piece.other name else .word name).text = name := by
      split_ifs <;> rfl
    rw [List.flatMap_cons, htext, ih]
    simp [name, List.takeWhile_append_dropWhile]
  | case6 before c rest _ _ _ _ ih => exact congrArg (c :: ·) ih

theorem mem_of_mem_words {code word : String} (h : word ∈ words code) {c : Char}
    (hc : c ∈ word.toList) : c ∈ code.toList := by
  rw [← text_scan none code.toList]
  exact List.mem_flatMap.2 ⟨_, (mem_words code word).1 h, hc⟩

/-! ## Names -/

/-- A text that is one word. -/
def IsName (w : List Char) : Prop :=
  ∃ c rest, w = c :: rest ∧ isWordStart c = true ∧ ∀ c ∈ rest, isWordChar c = true

theorem isWordChar_of_isWordStart {c : Char} (h : isWordStart c = true) :
    isWordChar c = true := by
  unfold isWordStart at h
  unfold isWordChar Char.isAlphanum
  rcases Bool.or_eq_true _ _ ▸ h with h | h <;> simp [h]

theorem IsName.isWordChar {w : List Char} (h : IsName w) {c : Char} (hc : c ∈ w) :
    isWordChar c = true := by
  obtain ⟨c', rest, rfl, hstart, hrest⟩ := h
  rcases List.mem_cons.1 hc with rfl | hc
  · exact isWordChar_of_isWordStart hstart
  · exact hrest c hc

/-- A word is found in front of a text that does not go on with it. -/
theorem scan_name {w : List Char} (h : IsName w) (before : Option Char) {rest : List Char}
    (hrest : ∀ c, rest.head? = some c → Glsl.isWordChar c = false) :
    scan before (w ++ rest) =
      (if before = some '.' then .other w else .word w) :: scan w.getLast? rest := by
  obtain ⟨c, w, rfl, hstart, hw⟩ := h
  rw [List.cons_append, scan_word hstart, takeWhile_append hw hrest, dropWhile_append hw hrest]

theorem scan_of_isName {w : List Char} (h : IsName w) : scan none w = [.word w] := by
  have hend : ∀ c, ([] : List Char).head? = some c → Glsl.isWordChar c = false :=
    fun c hc => by cases hc
  have := scan_name h none hend
  rw [List.append_nil] at this
  rw [this]
  simp [scan]

/-! ## Brackets -/

theorem scan_closing (before : Option Char) (rest : List Char) :
    scan before (')' :: rest) = .other [')'] :: scan (some ')') rest :=
  scan_other (noComment_of_ne (by decide)) rfl rfl

/-- Behind an opening bracket a text is scanned as at its start. -/
theorem scan_opened : ∀ cs : List Char, scan (some '(') cs = scan none cs
  | [] => by simp [scan]
  | c :: cs => by
    have hnumber : startsNumber (some '(') c cs = startsNumber none c cs := by
      unfold startsNumber
      rfl
    by_cases hslash : NoComment c cs
    · rw [scan_of_noComment _ hslash, scan_of_noComment _ hslash, hnumber]
      by_cases hblank : isBlank c = true
      · simp [hblank, scan_opened cs]
      · simp [hblank]
    · unfold NoComment at hslash
      push Not at hslash
      obtain ⟨rfl, h⟩ := hslash
      rcases cs with _ | ⟨d, cs⟩
      · simp at h
      · by_cases hd : d = '/'
        · rw [hd, scan_line, scan_line]
        · have hd' : d = '*' := by simpa [hd] using h
          rw [hd', scan_block, scan_block]

theorem splitNumber_closing (last : Char) (cs rest : List Char) :
    splitNumber last (cs ++ ')' :: rest) =
      ((splitNumber last cs).1, (splitNumber last cs).2 ++ ')' :: rest) := by
  have hstop : ∀ last, continuesNumber last ')' = false := by
    intro last
    unfold continuesNumber
    simp
  fun_induction splitNumber last cs with
  | case1 last =>
    rw [List.nil_append, splitNumber, hstop]
    rfl
  | case2 last c cs hc inside after hs ih =>
    rw [hs] at ih
    rw [List.cons_append, splitNumber, if_pos hc, ih]
  | case3 last c cs hc =>
    rw [List.cons_append, splitNumber, if_neg hc]

theorem startsNumber_closing (before : Option Char) (c : Char) (cs rest : List Char) :
    startsNumber before c (cs ++ ')' :: rest) = startsNumber before c cs := by
  unfold startsNumber
  rcases cs with _ | ⟨d, cs⟩
  · simp
  · rfl

/-- A closing bracket ends what is found in front of it, unless that is a comment. -/
theorem scan_closed (before : Option Char) {cs : List Char} (h : '/' ∉ cs) (rest : List Char) :
    scan before (cs ++ ')' :: rest) = scan before cs ++ scan none (')' :: rest) := by
  fun_induction scan before cs with
  | case1 before => rw [List.nil_append, List.nil_append, scan_closing, scan_closing]
  | case2 | case3 => simp at h
  | case4 before c cs _ _ hn number ih =>
    have hcs : '/' ∉ (splitNumber c cs).2 := fun hm =>
      h (List.mem_cons_of_mem _ (append_splitNumber c cs ▸ List.mem_append_right _ hm))
    rw [List.cons_append, scan_number (by rwa [startsNumber_closing]), splitNumber_closing,
      List.cons_append, ih hcs]
  | case5 before c cs _ _ _ hw name ih =>
    have hcs : '/' ∉ cs.dropWhile isWordChar :=
      fun hm => h (List.mem_cons_of_mem _ ((List.dropWhile_suffix _).subset hm))
    have hend : ∀ d, (cs.dropWhile isWordChar ++ ')' :: rest).head? = some d →
        isWordChar d = false := by
      intro d hd
      rcases hdrop : cs.dropWhile isWordChar with _ | ⟨d', cs'⟩
      · rw [hdrop] at hd
        cases hd
        decide
      · rw [hdrop] at hd
        exact head?_dropWhile cs d (by rw [hdrop]; exact hd)
    have hsplit : cs ++ ')' :: rest =
        cs.takeWhile isWordChar ++ (cs.dropWhile isWordChar ++ ')' :: rest) := by
      rw [← List.append_assoc, List.takeWhile_append_dropWhile]
    have hword : ∀ d ∈ cs.takeWhile isWordChar, isWordChar d = true :=
      fun _ hd => List.mem_takeWhile_imp hd
    rw [List.cons_append, scan_word hw, hsplit, takeWhile_append hword hend,
      dropWhile_append hword hend, ih hcs, List.cons_append]
  | case6 before c cs hline hblock hn hw ih =>
    have hslash : NoComment c (cs ++ ')' :: rest) :=
      noComment_of_ne fun hc => h (by simp [hc])
    simp only [dite_eq_ite] at ih
    rw [List.cons_append, scan_other hslash (by simpa [startsNumber_closing] using hn)
      (by simpa using hw), ih fun hm => h (List.mem_cons_of_mem _ hm), List.cons_append]

theorem IsName.slash_notMem {w : List Char} (h : IsName w) : '/' ∉ w :=
  fun hm => absurd (h.isWordChar hm) (by decide)

theorem scan_brackets {t cs : List Char} (ht : IsName t) (hcs : '/' ∉ cs) (before : Option Char)
    (rest : List Char) : scan before (t ++ '(' :: (cs ++ ')' :: rest)) =
      (if before = some '.' then .other t else .word t) :: .other ['('] ::
        (scan none cs ++ .other [')'] :: scan (some ')') rest) := by
  have hopen : ∀ (before : Option Char) (r : List Char),
      scan before ('(' :: r) = .other ['('] :: scan (some '(') r :=
    fun before r => scan_other (noComment_of_ne (by decide)) rfl rfl
  rw [scan_name ht before (by simp; decide), hopen, scan_opened, scan_closed none hcs, scan_closing]

/-! ## Replaced words -/

/-- A text that is one word, or one word in brackets after another. -/
inductive Simple : List Char → Prop
  | name {w : List Char} : IsName w → Simple w
  | call {t w : List Char} : IsName t → IsName w → Simple (t ++ '(' :: (w ++ [')']))

theorem Simple.head {text : List Char} (h : Simple text) :
    ∃ c rest, text = c :: rest ∧ isWordStart c = true := by
  rcases h with ⟨c, rest, rfl, hc, -⟩ | ⟨⟨c, rest, rfl, hc, -⟩, -⟩
  · exact ⟨c, rest, rfl, hc⟩
  · exact ⟨c, _, rfl, hc⟩

theorem IsName.getLast? {w : List Char} (h : IsName w) :
    ∃ c, w.getLast? = some c ∧ Glsl.isWordChar c = true := by
  have hne : w ≠ [] := by
    obtain ⟨c, rest, rfl, -⟩ := h
    exact List.cons_ne_nil c rest
  exact ⟨_, List.getLast?_eq_some_getLast hne, h.isWordChar (List.getLast_mem hne)⟩

/-- A simple text is found by itself in front of a text that does not go on with a word. -/
theorem scan_simple {text : List Char} (h : Simple text) {before : Option Char}
    (hbefore : before ≠ some '.') {rest : List Char}
    (hrest : ∀ c, rest.head? = some c → isWordChar c = false) :
    ∃ c, (isWordChar c = true ∨ c = ')') ∧
      scan before (text ++ rest) = scan none text ++ scan (some c) rest := by
  rcases h with hw | ⟨ht, hw⟩
  · obtain ⟨c, hlast, hc⟩ := hw.getLast?
    refine ⟨c, .inl hc, ?_⟩
    rw [scan_name hw before hrest, scan_of_isName hw, if_neg hbefore, hlast]
    rfl
  · have halone := scan_brackets ht hw.slash_notMem none []
    refine ⟨')', .inr rfl, ?_⟩
    rw [halone, List.append_assoc, List.cons_append, List.append_assoc, List.singleton_append,
      scan_brackets ht hw.slash_notMem before rest, if_neg hbefore]
    simp [scan]

namespace Piece

variable {β : Type}

/-- The text of a piece with its word replaced, if there is something to replace it by. -/
def fill (f : List Char → Option (List Char)) : Piece → List Char
  | .other text => text
  | .word name => (f name).getD name

/-- What `g` gives for a piece with its word replaced. -/
def expand (f : List Char → Option (List Char)) (g : Piece → List β) : Piece → List β
  | .other text => g (.other text)
  | .word name =>
    match f name with
    | some text => (scan none text).flatMap g
    | none => g (.word name)

end Piece

/-- The last characters before two texts do not make a difference for their words. -/
inductive Alike : Option Char → Option Char → Prop
  | same (c : Option Char) : Alike c c
  | word {c c' : Char} : isWordChar c = true → (isWordChar c' = true ∨ c' = ')') →
    Alike (some c) (some c')

theorem Alike.point_iff {c c' : Option Char} (h : Alike c c') :
    c = some '.' ↔ c' = some '.' := by
  rcases h with _ | ⟨hc, hc'⟩
  · rfl
  · simp only [Option.some.injEq]
    refine iff_of_false ?_ ?_
    · rintro rfl
      revert hc
      decide
    · rintro rfl
      revert hc'
      decide

section Fill

variable {f : List Char → Option (List Char)}
variable (hf : ∀ name text, f name = some text →
  (∃ c rest, name = c :: rest ∧ c.isAlpha = true) ∧ Simple text)

include hf in
/-- Replaced words change the first character of a text only if it is a letter. -/
theorem head?_fill (before : Option Char) (cs : List Char) :
    ((scan before cs).flatMap (Piece.fill f)).head? = cs.head? ∨ ∃ c c', cs.head? = some c ∧
      ((scan before cs).flatMap (Piece.fill f)).head? = some c' ∧ c.isAlpha = true ∧
      isWordStart c' = true := by
  fun_cases scan before cs with
  | case4 c rest _ _ _ number => exact .inl (by simp [Piece.fill, number])
  | case5 c rest _ _ _ _ name =>
    by_cases hb : before = some '.'
    · simp [hb, Piece.fill, name]
    · rcases hr : f name with _ | text
      · simp [hb, Piece.fill, hr, name]
      · obtain ⟨⟨c₁, rest₁, hname, halpha⟩, htext⟩ := hf name text hr
        obtain ⟨c', rest', rfl, hc'⟩ := htext.head
        obtain ⟨rfl, -⟩ := List.cons.inj hname
        exact .inr ⟨c, c', rfl, by simp [hb, Piece.fill, hr], halpha, hc'⟩
  | _ => simp [Piece.fill]

include hf in
theorem head?_fill_of_alpha {p : Char → Bool} (hp : ∀ c, c.isAlpha = true → p c = true)
    (before : Option Char) {cs : List Char} (h : ∀ c, cs.head? = some c → p c = false) :
    ∀ c, ((scan before cs).flatMap (Piece.fill f)).head? = some c → p c = false := by
  intro c hc
  rcases head?_fill hf before cs with he | ⟨c₁, c', hc₁, -, halpha, -⟩
  · exact h c (he ▸ hc)
  · have := h c₁ hc₁
    rw [hp c₁ halpha] at this
    cases this

include hf in
theorem head?_fill_any {p : Char → Bool} (hp : ∀ c, isWordStart c = true → p c = false)
    (before : Option Char) (cs : List Char) :
    ((scan before cs).flatMap (Piece.fill f)).head?.any p = cs.head?.any p := by
  rcases head?_fill hf before cs with he | ⟨c, c', hc, hc', halpha, hstart⟩
  · rw [he]
  · have hcstart : isWordStart c = true := by
      unfold isWordStart
      rw [halpha]
      rfl
    rw [hc, hc', Option.any_some, Option.any_some, hp c hcstart, hp c' hstart]

theorem head?_splitBlock (cs : List Char) : (splitBlock cs).1.head? = cs.head? := by
  fun_cases splitBlock cs <;> rfl

/-- A comment that is closed ends there whatever comes after it. -/
theorem splitBlock_append {cs : List Char} (h : (splitBlock cs).2 ≠ []) (t : List Char) :
    splitBlock ((splitBlock cs).1 ++ t) = ((splitBlock cs).1, t) := by
  fun_induction splitBlock cs with
  | case1 => exact absurd rfl h
  | case2 rest => simp [splitBlock]
  | case3 c rest hc inside after hs ih =>
    rw [hs] at ih
    have hclose : ∀ r, c = '*' → inside ++ t = '/' :: r → False := by
      intro r hstar hr
      have hhead := head?_splitBlock rest
      rw [hs] at hhead
      rcases rest with _ | ⟨d, rest⟩
      · simp only [splitBlock, Prod.mk.injEq] at hs
        exact h hs.2.symm
      · rcases inside with _ | ⟨d', inside⟩
        · simp at hhead
        · simp only [List.head?_cons, Option.some.injEq] at hhead
          rw [List.cons_append, List.cons.injEq] at hr
          exact hc rest hstar (by rw [← hhead, hr.1])
    rw [List.cons_append, splitBlock.eq_3 _ _ hclose, ih h]

theorem splitNumber_stops (last : Char) (cs : List Char) : ∀ c,
    (splitNumber last cs).2.head? = some c →
      continuesNumber ((splitNumber last cs).1.getLastD last) c = false := by
  fun_induction splitNumber last cs with
  | case1 => simp
  | case2 last c rest hc inside after hs ih =>
    rw [hs] at ih
    simpa only [List.getLastD_cons] using ih
  | case3 last c rest hc => simpa using hc

/-- A number ends before what does not go on with it. -/
theorem splitNumber_append {last : Char} {cs t : List Char} (ht : ∀ c, t.head? = some c →
      continuesNumber ((splitNumber last cs).1.getLastD last) c = false) :
    splitNumber last ((splitNumber last cs).1 ++ t) = ((splitNumber last cs).1, t) := by
  have hend : ∀ last, (∀ c, t.head? = some c → continuesNumber last c = false) →
      splitNumber last t = ([], t) := by
    intro last ht
    rcases t with _ | ⟨c, t⟩
    · rfl
    · rw [splitNumber, ht c rfl]
      rfl
  fun_induction splitNumber last cs with
  | case1 last => exact hend last ht
  | case2 last c rest hc inside after hs ih =>
    rw [hs] at ih
    rw [List.cons_append, splitNumber, if_pos hc, ih (by simpa only [List.getLastD_cons] using ht)]
  | case3 last c rest hc => exact hend last ht

variable {β : Type} {g : Piece → List β}

/-- A point in front of a digit adds itself, whether it belongs to the number or not. -/
theorem expand_point (hg : ∀ c rest, c.isDigit = true →
      g (.other ('.' :: c :: rest)) = g (.other ['.']) ++ g (.other (c :: rest)))
    (before : Option Char) {c : Char} (hc : c.isDigit = true) (rest : List Char) :
    (scan before ('.' :: c :: rest)).flatMap g =
      g (.other ['.']) ++ (scan (some '.') (c :: rest)).flatMap g := by
  have hnumber : ∀ before, startsNumber before c rest = true := by
    intro before
    unfold startsNumber
    rw [hc]
    rfl
  by_cases h : startsNumber before '.' (c :: rest) = true
  · have hcontinues : continuesNumber '.' c = true := by
      unfold continuesNumber Char.isAlphanum
      rw [hc]
      simp
    rw [scan_number h, scan_number (hnumber _)]
    simp only [splitNumber, hcontinues, if_true, List.flatMap_cons]
    rw [← List.append_assoc, ← hg _ _ hc, List.getLast?_cons_cons]
  · rw [scan_other (noComment_of_ne (by decide)) (by simpa using h) (by decide)]
    rfl

/-- What starts a number starts one as well when something else follows the number. -/
theorem startsNumber_split {before before' : Option Char} (h : Alike before before') {c : Char}
    {rest : List Char} (hn : startsNumber before c rest = true) (t : List Char) :
    startsNumber before' c ((splitNumber c rest).1 ++ t) = true := by
  unfold startsNumber at hn ⊢
  rcases hd : c.isDigit with _ | _
  · simp only [hd, Bool.false_or, Bool.and_eq_true, Bool.not_eq_true', beq_iff_eq] at hn ⊢
    obtain ⟨⟨rfl, hany⟩, hword⟩ := hn
    obtain ⟨d, hhead, hdigit⟩ := (Option.any_eq_true _ _).1 hany
    obtain ⟨l, rfl⟩ := List.head?_eq_some_iff.1 hhead
    have hcontinues : continuesNumber '.' d = true := by
      unfold continuesNumber Char.isAlphanum
      simp [hdigit]
    refine ⟨⟨rfl, by simp [splitNumber, hcontinues, hdigit]⟩, ?_⟩
    rcases h with _ | ⟨hc, -⟩
    · exact hword
    · rw [Option.any_some, hc] at hword
      cases hword
  · simp

theorem isWordChar_of_isAlpha {c : Char} (h : c.isAlpha = true) : isWordChar c = true := by
  unfold isWordChar Char.isAlphanum
  rw [h]
  rfl

variable (f g) in
/-- Replaced words of a text are found in the places of the old ones, and the rest as before. -/
def Keeps (before : Option Char) (cs : List Char) : Prop :=
  ∀ before', Alike before before' →
    (scan before' ((scan before cs).flatMap (Piece.fill f))).flatMap g =
      (scan before cs).flatMap (Piece.expand f g)

include hf

theorem keeps_line {rest : List Char} (ih : Keeps f g none (rest.dropWhile (· != '\n')))
    (before : Option Char) : Keeps f g before ('/' :: '/' :: rest) := by
  intro before' _
  have hline := List.all_eq_true.1 (List.all_takeWhile (p := (· != '\n')) (l := rest))
  have hletter : ∀ c : Char, c.isAlpha = true → (c != '\n') = true := by
    intro c hc
    rw [bne_iff_ne]
    rintro rfl
    revert hc
    decide
  have hend := head?_fill_of_alpha hf hletter none (head?_dropWhile rest)
  rw [scan_line, List.flatMap_cons, Piece.fill, List.cons_append, List.cons_append, scan_line,
    takeWhile_append hline hend, dropWhile_append hline hend, List.flatMap_cons,
    List.flatMap_cons, ih none (.same none)]
  rfl

omit hf in
theorem keeps_block {rest : List Char} (ih : Keeps f g none (splitBlock rest).2)
    (before : Option Char) : Keeps f g before ('/' :: '*' :: rest) := by
  intro before' _
  have hsplit : splitBlock ((splitBlock rest).1 ++
        (scan none (splitBlock rest).2).flatMap (Piece.fill f)) =
      ((splitBlock rest).1, (scan none (splitBlock rest).2).flatMap (Piece.fill f)) := by
    by_cases hr : (splitBlock rest).2 = []
    · have hall := append_splitBlock rest
      rw [hr, List.append_nil] at hall
      rw [hr, hall]
      simp only [scan, List.flatMap_nil, List.append_nil]
      exact Prod.ext hall hr
    · exact splitBlock_append hr _
  rw [scan_block, List.flatMap_cons, Piece.fill, List.cons_append, List.cons_append, scan_block,
    hsplit, List.flatMap_cons, List.flatMap_cons, ih none (.same none)]
  rfl

theorem keeps_number {before : Option Char} {c : Char} {rest : List Char}
    (hn : startsNumber before c rest = true)
    (ih : Keeps f g (c :: (splitNumber c rest).1).getLast? (splitNumber c rest).2) :
    Keeps f g before (c :: rest) := by
  intro before' hbefore
  have hletter : ∀ last d : Char, d.isAlpha = true → continuesNumber last d = true := by
    intro last d hd
    unfold continuesNumber Char.isAlphanum
    rw [hd]
    rfl
  have hstops := head?_fill_of_alpha hf (hletter _) (c :: (splitNumber c rest).1).getLast?
    (splitNumber_stops c rest)
  rw [scan_number hn, List.flatMap_cons, Piece.fill, List.cons_append,
    scan_number (startsNumber_split hbefore hn _), splitNumber_append hstops, List.flatMap_cons,
    List.flatMap_cons, ih _ (.same _)]
  rfl

theorem keeps_word {before : Option Char} {c : Char} {rest : List Char}
    (hw : isWordStart c = true)
    (ih : Keeps f g (c :: rest.takeWhile isWordChar).getLast? (rest.dropWhile isWordChar)) :
    Keeps f g before (c :: rest) := by
  intro before' hbefore
  rw [scan_word hw]
  generalize hname : c :: rest.takeWhile isWordChar = name at ih ⊢
  have hword : IsName name := ⟨c, _, hname.symm, hw, fun _ hc => List.mem_takeWhile_imp hc⟩
  have hend := head?_fill_of_alpha hf (fun _ => isWordChar_of_isAlpha) name.getLast?
    (head?_dropWhile rest)
  by_cases hb : before = some '.'
  · rw [if_pos hb, List.flatMap_cons, List.flatMap_cons, Piece.fill, scan_name hword _ hend,
      if_pos (hbefore.point_iff.1 hb), List.flatMap_cons, ih _ (.same _)]
    rfl
  · have hb' : before' ≠ some '.' := fun h => hb (hbefore.point_iff.2 h)
    rw [if_neg hb, List.flatMap_cons, List.flatMap_cons, Piece.fill, Piece.expand]
    rcases hr : f name with _ | text
    · rw [Option.getD_none, scan_name hword _ hend, if_neg hb', List.flatMap_cons,
        ih _ (.same _)]
    · obtain ⟨d, hd, hscan⟩ := scan_simple (hf name text hr).2 hb' hend
      obtain ⟨l, hl, hlast⟩ := hword.getLast?
      have hih := ih (some d) (by
        rw [hl]
        exact .word hlast hd)
      rw [Option.getD_some, hscan, List.flatMap_append, hih]

/-- A character by itself stays by itself in front of what replaced words start with, up to a
point that a digit follows. -/
theorem keeps_other (hg : ∀ c rest, c.isDigit = true →
      g (.other ('.' :: c :: rest)) = g (.other ['.']) ++ g (.other (c :: rest)))
    {before : Option Char} {c : Char} {rest : List Char} (hc : NoComment c rest)
    (hn : startsNumber before c rest = false) (hw : isWordStart c = false)
    (ih : Keeps f g (if isBlank c then before else some c) rest) :
    Keeps f g before (c :: rest) := by
  intro before' hbefore
  rw [scan_other hc hn hw, List.flatMap_cons, List.flatMap_cons, Piece.fill,
    List.singleton_append]
  unfold Keeps at ih
  generalize hT : (scan (if isBlank c = true then before else some c) rest).flatMap
    (Piece.fill f) = T at ih ⊢
  have hany : ∀ p : Char → Bool, (∀ c, isWordStart c = true → p c = false) →
      T.head?.any p = rest.head?.any p := by
    intro p hp
    rw [← hT]
    exact head?_fill_any hf hp _ rest
  have hdigit : c.isDigit = false := by
    rw [Bool.eq_false_iff]
    intro hd
    unfold startsNumber at hn
    simp [hd] at hn
  by_cases hpoint : c = '.' ∧ T.head?.any Char.isDigit = true
  · obtain ⟨rfl, hT'⟩ := hpoint
    obtain ⟨d, hhead, hd⟩ := (Option.any_eq_true _ _).1 hT'
    obtain ⟨T, rfl⟩ := List.head?_eq_some_iff.1 hhead
    rw [expand_point hg before' hd T, ← ih (some '.') (.same _)]
    rfl
  · have hkeep : ∀ d, isWordStart d = false → T.head? = some d → rest.head? = some d := by
      intro d hd h
      have := hany (· == d) fun d' hd' => by
        rw [beq_eq_false_iff_ne]
        rintro rfl
        rw [hd] at hd'
        cases hd'
      rw [h, Option.any_some, beq_self_eq_true] at this
      obtain ⟨d', hrest, he⟩ := (Option.any_eq_true _ _).1 this.symm
      rw [hrest, beq_iff_eq.1 he]
    have hslash : NoComment c T := fun hs =>
      ⟨fun h => (hc hs).1 (hkeep '/' (by decide) h), fun h => (hc hs).2 (hkeep '*' (by decide) h)⟩
    have hnumber : startsNumber before' c T = false := by
      unfold startsNumber
      rw [hdigit, Bool.false_or, Bool.and_eq_false_iff]
      refine .inl (Bool.eq_false_iff.2 fun h => hpoint ?_)
      simpa using h
    rw [scan_other hslash hnumber hw, List.flatMap_cons, ih]
    · rfl
    · split_ifs
      · exact hbefore
      · exact .same _

/-- Words are replaced in the places in which they are found, and the rest of the text is found as
before. -/
theorem scan_fill (hg : ∀ c rest, c.isDigit = true →
      g (.other ('.' :: c :: rest)) = g (.other ['.']) ++ g (.other (c :: rest)))
    (before : Option Char) (cs : List Char) : Keeps f g before cs := by
  induction before, cs using scan.induct with
  | case1 before =>
    intro before' _
    simp [scan]
  | case2 before rest ih => exact keeps_line hf ih before
  | case3 before rest ih => exact keeps_block ih before
  | case4 before c rest _ _ hn number ih => exact keeps_number hf hn ih
  | case5 before c rest _ _ _ hw name ih => exact keeps_word hf hw ih
  | case6 before c rest hline hblock hn hw ih =>
    exact keeps_other hf hg (noComment_of_forall hline hblock) (by simpa using hn)
      (by simpa using hw) ih

end Fill

end ShaderGraph.Glsl
