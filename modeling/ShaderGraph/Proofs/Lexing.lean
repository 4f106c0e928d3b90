import ShaderGraph.Proofs.Constants
import ShaderGraph.Proofs.Indentation
import ShaderGraph.Proofs.Replacement

/-!
# Words and lexemes

A scan tells names from comments, constants and members by looking at single characters. It asks
about the names that the language has in a text and that are no members (`asked_names`), unless a
comment stands between a point and a member, a constant ends in a point that looks like one, or what
stands directly behind a constant looks like a part of it.
-/

namespace ShaderGraph.Glsl

/-! ## Lexemes -/

/-- What stands for itself, alone or as a part of an operator. -/
def marks : List Char :=
  ['(', ')', '[', ']', '{', '}', ',', ':', '=', ';', '!', '-', '~', '+', '*', '/', '%', '<', '>',
    '|', '^', '&', '?']

def newlines : List Char := ['\n', '\r']

def blanks : List Char := [' ', '\t', '\x0b', '\x0c'] ++ newlines

inductive Lexeme where
  /-- An identifier or a keyword, which are spelled alike. -/
  | name (text : List Char)
  | constant (text : List Char)
  | point
  | mark (c : Char)
  | blank (c : Char)
  /-- A comment that ends with its line. -/
  | line (inside : List Char)
  /-- A comment that is closed. -/
  | block (inside : List Char)
deriving DecidableEq

namespace Lexeme

def text : Lexeme → List Char
  | name text | constant text => text
  | point => ['.']
  | mark c | blank c => [c]
  | line inside => '/' :: '/' :: inside
  | block inside => '/' :: '*' :: (inside ++ ['*', '/'])

/-- The lexeme is the longest one that a text starts with, in front of `rest`. -/
def Fits (rest : List Char) : Lexeme → Prop
  | name text => IsName text ∧ ∀ c, rest.head? = some c → isWordChar c = false
  | constant text => Constant text ∧
      ∀ other, Constant other → other <+: text ++ rest → other.length ≤ text.length
  | point => ∀ c, rest.head? = some c → c.isDigit = false
  | mark c => c ∈ marks ∧ NoComment c rest
  | blank c => c ∈ blanks
  | line inside => (∀ c ∈ inside, c ∉ newlines) ∧ ∀ c, rest.head? = some c → c ∈ newlines
  | block inside => ¬ ['*', '/'] <:+: inside ++ ['*']

def name? : Lexeme → Option String
  | name text => some (String.ofList text)
  | _ => none

def isBlank : Lexeme → Bool
  | blank _ => true
  | _ => false

/-- Comments are as good as blanks. -/
def isSpace : Lexeme → Bool
  | blank _ | line _ | block _ => true
  | _ => false

/-- Whether what comes next stands behind a point, over blanks and comments. -/
def behind (before : Bool) : Lexeme → Bool
  | point => true
  | blank _ | line _ | block _ => before
  | _ => false

/-- Whether a scan takes what comes next for a member: it sees no point through comments, and it
sees one at the end of a constant. -/
def seen (before : Bool) : Lexeme → Bool
  | point => true
  | blank _ => before
  | constant text => text.getLast? == some '.'
  | _ => false

end Lexeme

/-- The text consists of the lexemes. -/
inductive Lexed : List Char → List Lexeme → Prop
  | nil : Lexed [] []
  | cons {t : Lexeme} {rest : List Char} {ts : List Lexeme} (hfits : t.Fits rest)
    (h : Lexed rest ts) : Lexed (t.text ++ rest) (t :: ts)

/-- The names among lexemes that are no members, which are told by `next`. -/
def namesBy (next : Bool → Lexeme → Bool) : Bool → List Lexeme → List String
  | _, [] => []
  | member, t :: ts => (if member then [] else t.name?.toList) ++ namesBy next (next member t) ts

/-- The names that no point stands before. -/
def names (ts : List Lexeme) : List String := namesBy Lexeme.behind false ts

theorem Lexed.flatMap_text {cs : List Char} {ts : List Lexeme} (h : Lexed cs ts) :
    ts.flatMap Lexeme.text = cs := by
  induction h with
  | nil => rfl
  | cons _ _ ih => rw [List.flatMap_cons, ih]

/-! ## Words of lexemes -/

section Step

variable {before : Option Char} {t rest : List Char} {c : Char}

theorem wordsAfter_name (ht : IsName t) (hends : ∀ c, rest.head? = some c → isWordChar c = false) :
    wordsAfter before (t ++ rest) =
      (if before = some '.' then [] else [String.ofList t]) ++ wordsAfter t.getLast? rest := by
  obtain ⟨c, t, rfl, hc, ht⟩ := ht
  rw [wordsAfter, List.cons_append, scan_word hc, takeWhile_append ht hends,
    dropWhile_append ht hends]
  split_ifs <;> rfl

theorem getLast?_ne_point (ht : IsName t) : t.getLast? ≠ some '.' := by
  intro h
  have hpoint := ht.isWordChar (List.mem_of_getLast? h)
  cases hpoint

theorem wordsAfter_number (hstarts : startsNumber before c (t ++ rest) = true)
    (hruns : Runs (c :: t)) (hends : Ends (c :: t) rest) :
    wordsAfter before (c :: (t ++ rest)) = wordsAfter (c :: t).getLast? rest := by
  rw [wordsAfter, scan_number hstarts, splitNumber_run hruns hends]
  rfl

theorem wordsAfter_constant (ht : Constant t) (hends : Ends t rest) :
    wordsAfter before (t ++ rest) = wordsAfter t.getLast? rest := by
  have hruns := ht.runs
  obtain ⟨c, t, rfl, hc | ⟨rfl, d, hhead, hd⟩⟩ := ht.starts
  · exact wordsAfter_number (by unfold startsNumber; rw [hc]; rfl) hruns hends
  · obtain ⟨t, rfl⟩ := List.head?_eq_some_iff.1 hhead
    rcases hbefore : before.any isWordChar with _ | _
    · refine wordsAfter_number ?_ hruns hends
      unfold startsNumber
      rw [hbefore]
      simp [hd]
    · -- behind a name or a number the point stands alone, and a number starts behind it
      have hpoint : startsNumber before '.' (d :: t ++ rest) = false := by
        unfold startsNumber
        rw [hbefore]
        simp
      obtain ⟨-, hruns⟩ := List.isChain_cons_cons.1 hruns
      have hmore : Ends (d :: t) rest := fun l e hl he =>
        hends l e (by rw [List.getLast?_cons_cons, hl]) he
      rw [wordsAfter, List.cons_append, scan_other (noComment_of_ne (by decide)) hpoint (by decide),
        if_neg (by decide), List.getLast?_cons_cons]
      exact wordsAfter_number (by unfold startsNumber; rw [hd]; rfl) hruns hmore

theorem wordsAfter_other (hc : NoComment c rest) (hn : startsNumber before c rest = false)
    (hw : isWordStart c = false) (hb : isBlank c = false) :
    wordsAfter before (c :: rest) = wordsAfter (some c) rest := by
  rw [wordsAfter, scan_other hc hn hw, hb]
  rfl

theorem wordsAfter_point (h : ∀ c, rest.head? = some c → c.isDigit = false) :
    wordsAfter before ('.' :: rest) = wordsAfter (some '.') rest := by
  refine wordsAfter_other (noComment_of_ne (by decide)) ?_ (by decide) (by decide)
  rcases rest with _ | ⟨c, rest⟩
  · rfl
  · have hc : c.isDigit = false := h c rfl
    unfold startsNumber
    simp [hc]

theorem of_mem_marks (hc : c ∈ marks) :
    c.isDigit = false ∧ c ≠ '.' ∧ isWordStart c = false ∧ isBlank c = false := by
  have hmarks : marks.all (fun c =>
    !c.isDigit && c != '.' && !isWordStart c && !isBlank c) = true := rfl
  simpa [and_assoc] using List.all_eq_true.1 hmarks c hc

theorem wordsAfter_mark (hc : c ∈ marks) (hcomment : NoComment c rest) :
    wordsAfter before (c :: rest) = wordsAfter (some c) rest := by
  obtain ⟨hdigit, hpoint, hw, hb⟩ := of_mem_marks hc
  refine wordsAfter_other hcomment ?_ hw hb
  unfold startsNumber
  simp [hdigit, hpoint]

theorem isBlank_of_mem_blanks (hc : c ∈ blanks) : isBlank c = true := by
  have hblanks : blanks.all isBlank = true := rfl
  exact List.all_eq_true.1 hblanks c hc

theorem wordsAfter_blank (hc : c ∈ blanks) :
    wordsAfter before (c :: rest) = wordsAfter before rest :=
  wordsAfter_blanks before (List.forall_mem_singleton.2 (isBlank_of_mem_blanks hc)) rest

theorem splitBlock_close : ∀ {inside : List Char}, ¬ ['*', '/'] <:+: inside ++ ['*'] →
    splitBlock (inside ++ '*' :: '/' :: rest) = (inside ++ ['*', '/'], rest)
  | [], _ => rfl
  | c :: inside, h => by
    have hmore : ¬ ['*', '/'] <:+: inside ++ ['*'] := fun hm =>
      h (hm.trans (List.suffix_cons c _).isInfix)
    rw [List.cons_append, splitBlock.eq_3, splitBlock_close hmore]
    · rfl
    · rintro more rfl hslash
      rcases inside with _ | ⟨d, inside⟩
      · cases hslash
      · obtain ⟨rfl, -⟩ := List.cons.inj hslash
        exact h ⟨[], inside ++ ['*'], rfl⟩

theorem wordsAfter_block (h : ¬ ['*', '/'] <:+: t ++ ['*']) :
    wordsAfter before ('/' :: '*' :: (t ++ ['*', '/']) ++ rest) = wordsAfter none rest := by
  have htext : '/' :: '*' :: (t ++ ['*', '/']) ++ rest =
      '/' :: '*' :: (t ++ '*' :: '/' :: rest) := by
    simp
  rw [htext, wordsAfter, scan_block, splitBlock_close h]
  rfl

theorem wordsAfter_line (h : ∀ c ∈ t, c ∉ newlines) :
    wordsAfter before ('/' :: '/' :: t ++ rest) =
      wordsAfter none (rest.dropWhile (· != '\n')) := by
  have ht : ∀ c ∈ t, (c != '\n') = true := fun c hc => by
    rw [bne_iff_ne]
    rintro rfl
    exact h _ hc (by decide)
  rw [wordsAfter, List.cons_append, List.cons_append, scan_line, List.dropWhile_append_of_pos ht]
  rfl

end Step

/-- Where a scan finds the ends of lexemes as the language does. -/
structure Separated (ts : List Lexeme) : Prop where
  /-- Nothing that goes on with a number stands directly behind a constant. -/
  constants : ∀ t rest, .constant t :: rest <:+ ts → Ends t (rest.flatMap Lexeme.text)
  /-- The end of a line is not told by a carriage return alone. -/
  returns : ∀ t rest, .blank '\r' :: t :: rest <:+ ts → t = .blank '\n'

/-- Where a scan tells members as the language does. -/
structure Plain (ts : List Lexeme) : Prop where
  /-- Between a point and the name of a member there are no comments. -/
  members : ∀ rest, .point :: rest <:+ ts → ∀ name,
    (rest.dropWhile Lexeme.isSpace).head? = some (.name name) →
      ∀ t ∈ rest.takeWhile Lexeme.isSpace, t.isBlank = true
  /-- No name stands behind a constant that ends in a point, over blanks. -/
  points : ∀ t rest, .constant t :: rest <:+ ts → t.getLast? = some '.' → ∀ name,
    (rest.dropWhile Lexeme.isBlank).head? ≠ some (.name name)

section Tail

variable {t : Lexeme} {ts : List Lexeme}

theorem Separated.tail (h : Separated (t :: ts)) : Separated ts where
  constants t rest hs := h.constants t rest (hs.trans (List.suffix_cons _ ts))
  returns t rest hs := h.returns t rest (hs.trans (List.suffix_cons _ ts))

theorem Plain.tail (h : Plain (t :: ts)) : Plain ts where
  members rest hs := h.members rest (hs.trans (List.suffix_cons _ ts))
  points t rest hs := h.points t rest (hs.trans (List.suffix_cons _ ts))

end Tail

theorem Lexeme.Fits.text_ne_nil {t : Lexeme} {rest : List Char} (h : t.Fits rest) :
    t.text ≠ [] := by
  cases t with
  | name =>
    obtain ⟨⟨c, text, rfl, -⟩, -⟩ := h
    exact List.cons_ne_nil c text
  | constant => exact h.1.ne_nil
  | _ => exact List.cons_ne_nil _ _

/-- Nothing but a blank starts with a blank. -/
theorem Lexeme.Fits.eq_blank {t : Lexeme} {rest : List Char} {c : Char} (h : t.Fits rest)
    (hhead : t.text.head? = some c) (hc : c ∈ blanks) : t = .blank c := by
  have hblank := isBlank_of_mem_blanks hc
  have hne : ∀ d, ShaderGraph.isBlank d = false → d ≠ c :=
    fun d hd => (ne_of_isBlank hblank hd).symm
  cases t with
  | name text =>
    obtain ⟨⟨d, text, rfl, hd, -⟩, -⟩ := h
    have hd := isBlank_of_isWordChar (isWordChar_of_isWordStart hd)
    exact absurd (Option.some.inj hhead) (hne d hd)
  | constant text =>
    obtain ⟨d, text, rfl, hd⟩ := h.1.starts
    refine absurd (Option.some.inj hhead) (hne d ?_)
    rcases hd with hd | ⟨rfl, -⟩
    · exact isBlank_of_isWordChar (by unfold isWordChar Char.isAlphanum; simp [hd])
    · decide
  | point => exact absurd (Option.some.inj hhead) (hne '.' (by decide))
  | mark d =>
    obtain ⟨-, -, -, hd⟩ := of_mem_marks h.1
    exact absurd (Option.some.inj hhead) (hne d hd)
  | blank d =>
    cases hhead
    rfl
  | line | block => exact absurd (Option.some.inj hhead) (hne '/' (by decide))

theorem Lexed.of_blank {c : Char} {cs : List Char} {ts : List Lexeme} (h : Lexed (c :: cs) ts)
    (hc : c ∈ blanks) : ∃ rest, ts = .blank c :: rest ∧ Lexed cs rest := by
  generalize htext : c :: cs = text at h
  cases h with
  | nil => cases htext
  | @cons t rest ts hfits h =>
    have hhead : t.text.head? = some c := by
      rw [← List.head?_append_of_ne_nil t.text hfits.text_ne_nil, ← htext]
      rfl
    obtain rfl := hfits.eq_blank hhead hc
    cases htext
    exact ⟨ts, rfl, h⟩

/-- Before the next line there is at most a carriage return. -/
theorem wordsAfter_newline {cs : List Char} {ts : List Lexeme} (h : Lexed cs ts)
    (hs : Separated ts) (hstarts : ∀ c, cs.head? = some c → c ∈ newlines) :
    wordsAfter none (cs.dropWhile (· != '\n')) = wordsAfter none cs := by
  rcases cs with _ | ⟨c, cs⟩
  · rfl
  · have hc : c = '\n' ∨ c = '\r' := by simpa [newlines] using hstarts c rfl
    rcases hc with rfl | rfl
    · rfl
    · obtain ⟨rest, rfl, hmore⟩ := h.of_blank (by decide)
      have hreturn := @wordsAfter_blank none cs '\r' (by decide)
      rw [hreturn, List.dropWhile_cons_of_pos (by decide)]
      cases hmore with
      | nil => rfl
      | @cons t behind rest _ _ =>
        obtain rfl := hs.returns t rest List.suffix_rfl
        rfl

/-- The words are the names that a scan does not take for members. -/
theorem wordsAfter_lexed {cs : List Char} {ts : List Lexeme} (h : Lexed cs ts) (hs : Separated ts) :
    ∀ before member, (member = true ↔ before = some '.') →
      wordsAfter before cs = namesBy Lexeme.seen member ts := by
  -- of what the scan saw last it matters only whether that was a point
  induction h with
  | nil =>
    intro before member _
    rw [wordsAfter, scan]
    rfl
  | @cons t rest ts hfits h ih =>
    intro before member hmember
    have hidle : t.name? = none →
        namesBy Lexeme.seen member (t :: ts) = namesBy Lexeme.seen (t.seen member) ts := by
      intro hname
      rw [namesBy, hname]
      cases member <;> rfl
    cases t with
    | name text =>
      obtain ⟨hname, hends⟩ := hfits
      change wordsAfter before (text ++ rest) = _
      rw [wordsAfter_name hname hends, ih hs.tail _ false
        (by simp [getLast?_ne_point hname]), namesBy]
      simp only [← hmember]
      rfl
    | constant text =>
      have hends := hs.constants text ts List.suffix_rfl
      rw [h.flatMap_text] at hends
      change wordsAfter before (text ++ rest) = _
      rw [wordsAfter_constant hfits.1 hends, hidle rfl]
      exact ih hs.tail _ _ beq_iff_eq
    | point =>
      rw [hidle rfl]
      exact (wordsAfter_point hfits).trans (ih hs.tail _ _ (by simp [Lexeme.seen]))
    | mark c =>
      obtain ⟨hc, hcomment⟩ := hfits
      obtain ⟨-, hpoint, -⟩ := of_mem_marks hc
      rw [hidle rfl]
      exact (wordsAfter_mark hc hcomment).trans (ih hs.tail _ _ (by simp [Lexeme.seen, hpoint]))
    | blank c =>
      rw [hidle rfl]
      exact (wordsAfter_blank hfits).trans (ih hs.tail _ _ hmember)
    | line inside =>
      obtain ⟨hinside, hstarts⟩ := hfits
      rw [hidle rfl]
      refine (wordsAfter_line hinside).trans ?_
      rw [wordsAfter_newline h hs.tail hstarts]
      exact ih hs.tail _ _ (by simp [Lexeme.seen])
    | block inside =>
      rw [hidle rfl]
      exact (wordsAfter_block hfits).trans (ih hs.tail _ _ (by simp [Lexeme.seen]))

/-! ## Names -/

/-- It does not matter whether a member is expected where no name comes next. -/
theorem namesBy_member {next : Bool → Lexeme → Bool} {skip : Lexeme → Bool}
    (hskip : ∀ member t, skip t = true → t.name? = none ∧ next member t = member)
    (hnext : ∀ member t, skip t = false → next member t = next false t) (member : Bool) :
    ∀ ts : List Lexeme, (∀ name, (ts.dropWhile skip).head? ≠ some (.name name)) →
      namesBy next member ts = namesBy next false ts
  | [], _ => rfl
  | t :: ts, h => by
    have hname : t.name? = none := by
      cases t with
      | name text =>
        rcases hs : skip (.name text) with _ | _
        · rw [List.dropWhile_cons_of_neg (by simp [hs])] at h
          exact absurd rfl (h text)
        · exact (hskip member _ hs).1
      | _ => rfl
    rw [namesBy, namesBy, hname]
    rcases hs : skip t with _ | _
    · rw [hnext member t hs]
      cases member <;> rfl
    · rw [List.dropWhile_cons_of_pos hs] at h
      rw [(hskip member t hs).2, (hskip false t hs).2, namesBy_member hskip hnext member ts h]
      cases member <;> rfl

theorem namesBy_seen (member : Bool) (ts : List Lexeme)
    (h : ∀ name, (ts.dropWhile Lexeme.isBlank).head? ≠ some (.name name)) :
    namesBy Lexeme.seen member ts = namesBy Lexeme.seen false ts := by
  refine namesBy_member (fun _ t ht => ?_) (fun _ t ht => ?_) member ts h
  · cases t <;> first | exact ⟨rfl, rfl⟩ | cases ht
  · cases t <;> first | rfl | cases ht

theorem namesBy_behind (member : Bool) (ts : List Lexeme)
    (h : ∀ name, (ts.dropWhile Lexeme.isSpace).head? ≠ some (.name name)) :
    namesBy Lexeme.behind member ts = namesBy Lexeme.behind false ts := by
  refine namesBy_member (fun member t ht => ?_) (fun _ t ht => ?_) member ts h
  · cases t <;> first | exact ⟨rfl, rfl⟩ | cases ht
  · cases t <;> first | rfl | cases ht

theorem Plain.names_eq : ∀ {ts : List Lexeme}, Plain ts →
    namesBy Lexeme.seen false ts = namesBy Lexeme.behind false ts ∧
      ((∀ name, (ts.dropWhile Lexeme.isSpace).head? = some (.name name) →
          ∀ t ∈ ts.takeWhile Lexeme.isSpace, t.isBlank = true) →
        namesBy Lexeme.seen true ts = namesBy Lexeme.behind true ts)
  | [], _ => ⟨rfl, fun _ => rfl⟩
  | t :: ts, h => by
    obtain ⟨hfalse, htrue⟩ := h.tail.names_eq
    -- behind a comment the scan expects no member, and none may come if a point stands before it
    have hcomment : t.isSpace = true → t.isBlank = false →
        (∀ name, ((t :: ts).dropWhile Lexeme.isSpace).head? = some (.name name) →
          ∀ u ∈ (t :: ts).takeWhile Lexeme.isSpace, u.isBlank = true) →
        namesBy Lexeme.seen false ts = namesBy Lexeme.behind true ts := by
      intro hspace hblank hmembers
      rw [namesBy_behind true ts, hfalse]
      intro name hname
      rw [List.dropWhile_cons_of_pos hspace] at hmembers
      have hall := hmembers name hname t (by rw [List.takeWhile_cons_of_pos hspace]; simp)
      rw [hblank] at hall
      cases hall
    cases t with
    | name text => exact ⟨congrArg _ hfalse, fun _ => hfalse⟩
    | constant text =>
      have hpoint := h.points text ts List.suffix_rfl
      have hconstant : namesBy Lexeme.seen (text.getLast? == some '.') ts =
          namesBy Lexeme.behind false ts := by
        rw [← hfalse]
        rcases hlast : text.getLast? == some '.' with _ | _
        · rfl
        · exact namesBy_seen true ts (hpoint (beq_iff_eq.1 hlast))
      exact ⟨hconstant, fun _ => hconstant⟩
    | point =>
      have hmembers := htrue (h.members ts List.suffix_rfl)
      exact ⟨hmembers, fun _ => hmembers⟩
    | mark c => exact ⟨hfalse, fun _ => hfalse⟩
    | blank c =>
      refine ⟨hfalse, fun hmembers => htrue fun name hname t ht => ?_⟩
      exact hmembers name hname t (List.mem_cons_of_mem _ ht)
    | line inside => exact ⟨hfalse, hcomment rfl rfl⟩
    | block inside => exact ⟨hfalse, hcomment rfl rfl⟩

section Asking

variable {ε σ : Type} {ask : String → ExceptT ε (StateM σ) (Option String)}

/-- Without a failure everything is asked about. -/
theorem Asked.words_eq {s s' : σ} {pieces : List Piece} {record : Record ε}
    {result : Except ε (List (List Char))} (h : Asked ask s pieces record result s')
    (hok : ∀ word s, ∃ answer, ((ask word).run.run s).1 = .ok answer) :
    record.map Prod.fst = pieces.filterMap (fun
      | .word name => some (String.ofList name)
      | .other _ => none) ∧ ∃ texts, result = .ok texts := by
  induction h with
  | nil => exact ⟨rfl, _, rfl⟩
  | other text _ ih =>
    obtain ⟨hwords, texts, rfl⟩ := ih
    exact ⟨hwords, _, rfl⟩
  | answered _ _ ih =>
    obtain ⟨hwords, texts, rfl⟩ := ih
    exact ⟨congrArg _ hwords, _, rfl⟩
  | @failed s s' e name _ he =>
    obtain ⟨answer, hanswer⟩ := hok (String.ofList name) s
    rw [he] at hanswer
    cases hanswer

/-- If a scan finds the ends of a text's lexemes, then whoever never fails is asked about the names
that do not stand behind a point or a constant that ends in one, over blanks, in order. These are
the names that are no members, unless a comment hides a point or a constant ends in one. -/
theorem asked_names (hok : ∀ word s, ∃ answer, ((ask word).run.run s).1 = .ok answer)
    {code : String} {ts : List Lexeme} (h : Lexed code.toList ts) (hs : Separated ts) (s : σ) :
    ∃ (answers : List (String × Option String)) (text : String) (s' : σ),
      (replaceWords (recording ask) code).run.run (s, []) =
        (.ok text, s', answers.map fun a => (a.1, .ok a.2)) ∧
      answers.map Prod.fst = namesBy Lexeme.seen false ts ∧
      (Plain ts → answers.map Prod.fst = names ts) := by
  obtain ⟨record, result, s', hasked, -, hrecord⟩ := exists_asked ask (scan none code.toList) s
  obtain ⟨hwords, texts, rfl⟩ := hasked.words_eq hok
  obtain ⟨answers, rfl, -⟩ := hasked.filled rfl
  have hnames : answers.map Prod.fst = namesBy Lexeme.seen false ts := by
    rw [List.map_map] at hwords
    exact hwords.trans (wordsAfter_lexed h hs none false (by simp))
  refine ⟨answers, String.ofList texts.flatten, s', ?_, hnames, fun hplain => ?_⟩
  · rw [replaceWords, ExceptT.run_bind, StateT.run_bind, hrecord]
    rfl
  · exact hnames.trans hplain.names_eq.1

end Asking

section Spaced

theorem lexed_of_fits : ∀ {ts : List Lexeme} {cs : List Char}, cs = ts.flatMap Lexeme.text →
    (∀ t rest, t :: rest <:+ ts → t.Fits (rest.flatMap Lexeme.text)) → Lexed cs ts
  | [], _, hcs, _ => hcs ▸ .nil
  | t :: ts, _, hcs, h => hcs ▸ .cons (h t ts List.suffix_rfl)
      (lexed_of_fits rfl fun u rest hs => h u rest (hs.trans (List.suffix_cons t ts)))

theorem constant_hexadecimal : Constant ['0', 'x', 'E'] :=
  @Constant.hexadecimal 'x' ['E'] [] (.inl rfl) (by simp) (by simp [hexadecimalDigits])
    (by simp [integerSuffixes])

/-- A member behind a blank, a constant that ends in a letter and a comment. -/
def spaced : List Lexeme :=
  [.name ['v'], .point, .blank ' ', .name ['x'], .mark '-', .constant ['0', 'x', 'E'], .mark '/',
    .name ['i', 'n', '_', 'a'], .line [' ', 'i', 'n', '_', 'b']]

theorem lexed_spaced : Lexed "v. x-0xE/in_a// in_b".toList spaced := by
  refine lexed_of_fits rfl fun t rest h => ?_
  simp only [spaced, List.suffix_cons_iff, List.cons.injEq, List.suffix_nil, reduceCtorEq,
    or_false] at h
  rcases h with ⟨rfl, rfl⟩ | ⟨rfl, rfl⟩ | ⟨rfl, rfl⟩ | ⟨rfl, rfl⟩ | ⟨rfl, rfl⟩ | ⟨rfl, rfl⟩ |
    ⟨rfl, rfl⟩ | ⟨rfl, rfl⟩ | ⟨rfl, rfl⟩
  · exact ⟨⟨'v', _, rfl, by decide, by simp⟩, by rintro _ ⟨⟩; decide⟩
  · rintro _ ⟨⟩
    decide
  · exact (by decide : ' ' ∈ blanks)
  · exact ⟨⟨'x', _, rfl, by decide, by simp⟩, by rintro _ ⟨⟩; decide⟩
  · exact ⟨by decide, noComment_of_ne (by decide)⟩
  · refine ⟨constant_hexadecimal, fun other hother => constant_hexadecimal.longest ?_ hother⟩
    rintro _ _ ⟨⟩ ⟨⟩
    decide
  · exact ⟨by decide, by rintro -; decide⟩
  · exact ⟨⟨'i', _, rfl, by decide, List.all_eq_true.1 rfl⟩, by rintro _ ⟨⟩; decide⟩
  · exact ⟨by simp [newlines], nofun⟩

theorem separated_spaced : Separated spaced where
  constants t rest h := by
    simp only [spaced, List.suffix_cons_iff, List.cons.injEq, Lexeme.constant.injEq,
      List.suffix_nil, reduceCtorEq, false_and, or_false, false_or] at h
    obtain ⟨rfl, rfl⟩ := h
    rintro _ _ ⟨⟩ ⟨⟩
    decide
  returns t rest h := by simp [spaced, List.suffix_cons_iff] at h

theorem plain_spaced : Plain spaced where
  members rest h _ _ t ht := by
    simp only [spaced, List.suffix_cons_iff, List.cons.injEq, List.suffix_nil, reduceCtorEq,
      false_and, true_and, or_false, false_or] at h
    subst h
    obtain rfl := List.mem_singleton.1 (ht : t ∈ [.blank ' '])
    rfl
  points t rest h hlast := by
    simp only [spaced, List.suffix_cons_iff, List.cons.injEq, Lexeme.constant.injEq,
      List.suffix_nil, reduceCtorEq, false_and, or_false, false_or] at h
    obtain ⟨rfl, -⟩ := h
    cases hlast

theorem asked_names_spaced : ∃ (answers : List (String × Option String)) (text : String),
    (replaceWords (recording fun _ => pure none) "v. x-0xE/in_a// in_b" :
        ExceptT Empty (StateM (Unit × Record Empty)) String).run.run ((), []) =
      (.ok text, (), answers.map fun a => (a.1, .ok a.2)) ∧
    answers.map Prod.fst = ["v", "in_a"] := by
  obtain ⟨answers, text, ⟨⟩, hrun, -, hnames⟩ := @asked_names Empty Unit (fun _ => pure none)
    (fun _ _ => ⟨none, rfl⟩) _ _ lexed_spaced separated_spaced ()
  exact ⟨answers, text, hrun, hnames plain_spaced⟩

end Spaced

/-- A comment hides a point, and a sign stands behind a constant that seems to have an exponent:
texts whose words are not their names. -/
theorem words_ne_names :
    (∃ ts, Lexed "v./* x */in_a".toList ts ∧ names ts = ["v"] ∧
      words "v./* x */in_a" = ["v", "in_a"]) ∧
    ∃ ts, Lexed "0xE+in_a".toList ts ∧ names ts = ["in_a"] ∧ words "0xE+in_a" = ["_a"] := by
  have hname : IsName ['i', 'n', '_', 'a'] :=
    ⟨'i', _, rfl, by decide, List.all_eq_true.1 rfl⟩
  refine ⟨⟨[.name ['v'], .point, .block [' ', 'x', ' '], .name ['i', 'n', '_', 'a']], ?_, rfl,
    by decide +kernel⟩, [.constant ['0', 'x', 'E'], .mark '+', .name ['i', 'n', '_', 'a']], ?_, rfl,
    by decide +kernel⟩
  · refine lexed_of_fits rfl fun t rest h => ?_
    simp only [List.suffix_cons_iff, List.cons.injEq, List.suffix_nil, reduceCtorEq, or_false] at h
    rcases h with ⟨rfl, rfl⟩ | ⟨rfl, rfl⟩ | ⟨rfl, rfl⟩ | ⟨rfl, rfl⟩
    · exact ⟨⟨'v', _, rfl, by decide, by simp⟩, by rintro _ ⟨⟩; decide⟩
    · rintro _ ⟨⟩
      decide
    · exact (by decide : ¬ ['*', '/'] <:+: [' ', 'x', ' ', '*'])
    · exact ⟨hname, nofun⟩
  · refine lexed_of_fits rfl fun t rest h => ?_
    simp only [List.suffix_cons_iff, List.cons.injEq, List.suffix_nil, reduceCtorEq, or_false] at h
    rcases h with ⟨rfl, rfl⟩ | ⟨rfl, rfl⟩ | ⟨rfl, rfl⟩
    · refine ⟨constant_hexadecimal, fun other hother hfront => ?_⟩
      refine hother.longest_hexadecimal ?_ hfront
      rintro _ ⟨⟩
      decide
    · exact ⟨by decide, noComment_of_ne (by decide)⟩
    · exact ⟨hname, nofun⟩

end ShaderGraph.Glsl
