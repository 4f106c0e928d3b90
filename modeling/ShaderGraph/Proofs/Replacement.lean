import ShaderGraph.Proofs.Scanning

/-!
# What replacing words changes

Whoever is asked about words can fail and can remember what it was asked. Replacing the words of a
text asks about one word after another until one fails, and changes nothing but the words: each is
a whole name outside of comments, and the text between them stays (`replaceWords_exact`). Comments
are told from code by a reader of single characters (`Region.next`), which knows nothing of words.
-/

namespace ShaderGraph.Glsl

/-! ## Comments -/

/-- Where the end of a text is. -/
inductive Region where
  | code
  /-- In code, behind a slash that the next character may turn into a comment. -/
  | slash
  | line
  | block
  /-- In a block comment, behind a star that the next character may turn into its end. -/
  | star
deriving DecidableEq

namespace Region

def next : Region → Char → Region
  | .code, c => if c = '/' then .slash else .code
  | .slash, c => if c = '/' then .line else if c = '*' then .block else .code
  | .line, c => if c = '\n' then .code else .line
  | .block, c => if c = '*' then .star else .block
  | .star, c => if c = '/' then .code else if c = '*' then .star else .block

/-- Where a text ends that starts in a region. -/
def after (r : Region) (text : List Char) : Region := text.foldl next r

/-- The region is as good as code for what comes next. -/
def Open (r : Region) (rest : List Char) : Prop := ∀ c, rest.head? = some c → r.next c = code.next c

end Region

/-- What stands behind a text belongs to a comment. -/
def InComment (front : List Char) : Prop :=
  Region.code.after front = .line ∨ Region.code.after front = .block ∨
    Region.code.after front = .star

namespace Region

variable {r : Region} {a b rest : List Char}

theorem after_append (r : Region) (a b : List Char) : r.after (a ++ b) = (r.after a).after b :=
  List.foldl_append

theorem open_code (rest : List Char) : code.Open rest := fun _ _ => rfl

theorem Open.after_cons {c : Char} (h : r.Open (c :: rest)) :
    r.after (c :: rest) = code.after (c :: rest) := by
  change (r.next c).after rest = (code.next c).after rest
  rw [h c rfl]

/-- Texts without slashes do not leave the code. -/
theorem after_code : ∀ {text : List Char}, '/' ∉ text → code.after text = code
  | [], _ => rfl
  | c :: text, h => by
    rw [List.mem_cons, not_or] at h
    have hc : code.next c = code := if_neg (Ne.symm h.1)
    change (code.next c).after text = code
    rw [hc, after_code h.2]

theorem after_line : ∀ {text : List Char}, '\n' ∉ text → line.after text = line
  | [], _ => rfl
  | c :: text, h => by
    rw [List.mem_cons, not_or] at h
    have hc : line.next c = line := if_neg (Ne.symm h.1)
    change (line.next c).after text = line
    rw [hc, after_line h.2]

/-- A block comment leads back to the code, unless the text ends in it. -/
theorem after_splitBlock (cs : List Char) : (splitBlock cs).2 = [] ∨
    block.after (splitBlock cs).1 = code ∧
      (cs.head? ≠ some '/' → star.after (splitBlock cs).1 = code) := by
  fun_induction splitBlock cs with
  | case1 => exact .inl rfl
  | case2 rest => exact .inr ⟨rfl, fun _ => rfl⟩
  | case3 c rest hc inside after hs ih =>
    rw [hs] at ih
    refine ih.imp_right ?_
    rintro ⟨hblock, hstar⟩
    by_cases h : c = '*'
    · have hrest : rest.head? ≠ some '/' := by
        intro hhead
        obtain ⟨l, hl⟩ := List.head?_eq_some_iff.1 hhead
        exact hc l h hl
      subst h
      exact ⟨hstar hrest, fun _ => hstar hrest⟩
    · have hnext : block.next c = block := if_neg h
      refine ⟨?_, fun hslash => ?_⟩
      · change (block.next c).after inside = code
        rw [hnext, hblock]
      · have hnext : star.next c = block := by
          rw [next, if_neg (by simpa using hslash), if_neg h]
        change (star.next c).after inside = code
        rw [hnext, hblock]

/-- What comes next decides how a region goes on behind a text that is not empty. -/
theorem Open.append {front : List Char} (h : (code.after front).Open (a ++ rest)) (ha : a ≠ [])
    (hrest : (code.after a).Open rest) : (code.after (front ++ a)).Open rest := by
  obtain ⟨c, a, rfl⟩ := List.exists_cons_of_ne_nil ha
  have hopen : (code.after front).Open (c :: a) := h
  rwa [after_append, hopen.after_cons]

theorem open_line (cs : List Char) :
    (code.after ('/' :: '/' :: cs.takeWhile (· != '\n'))).Open (cs.dropWhile (· != '\n')) := by
  have hline : '\n' ∉ cs.takeWhile (· != '\n') :=
    fun hm => by simpa using List.mem_takeWhile_imp hm
  intro c hc
  have hnewline : c = '\n' := by simpa using head?_dropWhile cs c hc
  change (line.after _).next c = _
  rw [after_line hline, hnewline]
  rfl

theorem open_block (cs : List Char) :
    (code.after ('/' :: '*' :: (splitBlock cs).1)).Open (splitBlock cs).2 := by
  change (block.after (splitBlock cs).1).Open _
  rcases after_splitBlock cs with hnil | ⟨hcode, -⟩
  · rw [hnil]
    exact fun c hc => by cases hc
  · rw [hcode]
    exact open_code _

theorem open_other {c : Char} (h : NoComment c rest) : (code.after [c]).Open rest := by
  intro d hd
  by_cases hc : c = '/'
  · obtain ⟨hline, hblock⟩ := h hc
    rw [hd, ne_eq, Option.some.injEq] at hline hblock
    subst hc
    change slash.next d = code.next d
    rw [next, next, if_neg hline, if_neg hblock, if_neg hline]
  · rw [after_code (by simpa using Ne.symm hc)]

/-- A name is outside of comments if it starts in a region that is as good as code. -/
theorem Open.notMem_comment {front word rest : List Char}
    (h : (code.after front).Open (word ++ rest))
    (hword : IsName word) {a : List Char} (ha : a <+: word) : ¬ InComment (front ++ a) := by
  obtain ⟨b, hab⟩ := ha
  have hslash : '/' ∉ a := fun hm => hword.slash_notMem (hab ▸ List.mem_append_left b hm)
  obtain ⟨c, w, rfl, hc, -⟩ := hword
  rcases a with _ | ⟨c', a⟩
  · have hnext := h c rfl
    have hne : c ≠ '/' ∧ c ≠ '*' ∧ c ≠ '\n' := by
      refine ⟨?_, ?_, ?_⟩ <;> rintro rfl <;> revert hc <;> decide
    rw [List.append_nil, InComment]
    rintro (hr | hr | hr) <;> rw [hr] at hnext <;> simp [next, hne] at hnext
  · have hopen : (code.after front).Open (c' :: a) := fun d hd => h d (by rw [← hab]; exact hd)
    rw [InComment, after_append, hopen.after_cons, after_code hslash]
    simp

end Region

/-! ## Places of words -/

/-- `text` is `code` with words replaced by what is answered about them, where no answer keeps the
word. The words are whole names outside of comments; `front` is what stands in front of `code`. -/
inductive Replaced : List Char → List (String × Option String) → List Char → List Char → Prop
  | rest (front text : List Char) : Replaced front [] text text
  | word {front gap word code text : List Char} {answer : Option String}
    {more : List (String × Option String)} (hname : IsName word)
    (hends : ∀ c, code.head? = some c → isWordChar c = false)
    (houtside : ∀ a, a <+: word → ¬ InComment (front ++ gap ++ a))
    (hmore : Replaced (front ++ gap ++ word) more code text) :
    Replaced front ((String.ofList word, answer) :: more) (gap ++ (word ++ code))
      (gap ++ ((answer.map String.toList).getD word ++ text))

theorem Replaced.gap {front code text : List Char} {answers : List (String × Option String)}
    {gap : List Char} (h : Replaced (front ++ gap) answers code text) :
    Replaced front answers (gap ++ code) (gap ++ text) := by
  generalize hfront : front ++ gap = front' at h
  cases h with
  | rest => exact .rest front _
  | word hname hends houtside hmore =>
    subst hfront
    simp only [List.append_assoc] at houtside hmore
    rw [← List.append_assoc gap, ← List.append_assoc gap]
    exact .word hname hends (by simpa only [List.append_assoc] using houtside)
      (by simpa only [List.append_assoc] using hmore)

/-- What the pieces of a text become with answers for their words, as long as there are any. -/
inductive Filled : List Piece → List (String × Option String) → List (List Char) → Prop
  | nil : Filled [] [] []
  | other {pieces answers texts} (text : List Char) (h : Filled pieces answers texts) :
    Filled (.other text :: pieces) answers (text :: texts)
  | word {pieces answers texts} (name : List Char) (answer : Option String)
    (h : Filled pieces answers texts) :
    Filled (.word name :: pieces) ((String.ofList name, answer) :: answers)
      ((answer.map String.toList).getD name :: texts)

theorem slash_notMem_splitNumber (last : Char) (cs : List Char) :
    '/' ∉ (splitNumber last cs).1 := by
  fun_induction splitNumber last cs with
  | case1 => exact List.not_mem_nil
  | case2 last c rest hc inside after hs ih =>
    rw [hs] at ih
    rw [List.mem_cons, not_or]
    refine ⟨?_, ih⟩
    rintro rfl
    unfold continuesNumber at hc
    simp at hc
  | case3 => exact List.not_mem_nil

/-- The pieces cut a text at words that are outside of comments. -/
def Cuts (pieces : List Piece) (code : List Char) : Prop :=
  ∀ front answers texts, (Region.code.after front).Open code → Filled pieces answers texts →
    Replaced front answers code texts.flatten

section Pieces

variable {pieces : List Piece} {rest : List Char}

theorem cuts_other {text : List Char} (hne : text ≠ [])
    (hrest : (Region.code.after text).Open rest) (ih : Cuts pieces rest) :
    Cuts (.other text :: pieces) (text ++ rest) := by
  intro front answers texts hopen h
  cases h with
  | other _ h => exact (ih _ _ _ (hopen.append hne hrest) h).gap

theorem cuts_word {word : List Char} (hname : IsName word)
    (hends : ∀ c, rest.head? = some c → isWordChar c = false) (ih : Cuts pieces rest) :
    Cuts (.word word :: pieces) (word ++ rest) := by
  intro front answers texts hopen h
  have hne : word ≠ [] := by
    obtain ⟨c, w, rfl, -⟩ := hname
    exact List.cons_ne_nil c w
  have hrest : (Region.code.after word).Open rest := by
    rw [Region.after_code hname.slash_notMem]
    exact Region.open_code rest
  cases h with
  | word _ answer h =>
    have houtside : ∀ a, a <+: word → ¬ InComment (front ++ [] ++ a) := by
      rw [List.append_nil]
      exact fun a ha => hopen.notMem_comment hname ha
    have hmore := ih _ _ _ (hopen.append hne hrest) h
    rw [← List.append_nil front] at hmore
    exact Replaced.word hname hends houtside hmore

end Pieces

theorem cuts_scan (before : Option Char) (cs : List Char) : Cuts (scan before cs) cs := by
  induction before, cs using scan.induct with
  | case1 before =>
    intro front answers texts _ h
    rw [scan] at h
    cases h
    exact .rest front []
  | case2 before rest ih =>
    have hsplit : '/' :: '/' :: rest = '/' :: '/' :: rest.takeWhile (· != '\n') ++
        rest.dropWhile (· != '\n') := by simp
    rw [scan_line, hsplit]
    exact cuts_other (by simp) (Region.open_line rest) ih
  | case3 before rest ih =>
    have hsplit :
        '/' :: '*' :: rest = '/' :: '*' :: (splitBlock rest).1 ++ (splitBlock rest).2 := by
      simp [append_splitBlock]
    rw [scan_block, hsplit]
    exact cuts_other (by simp) (Region.open_block rest) ih
  | case4 before c rest _ _ hn number ih =>
    have hslash : '/' ∉ c :: (splitNumber c rest).1 := by
      rw [List.mem_cons, not_or]
      exact ⟨(startsNumber_ne_slash hn).symm, slash_notMem_splitNumber c rest⟩
    have hrest : (Region.code.after (c :: (splitNumber c rest).1)).Open (splitNumber c rest).2 := by
      rw [Region.after_code hslash]
      exact Region.open_code _
    have hcut := cuts_other (List.cons_ne_nil _ _) hrest ih
    rwa [List.cons_append, append_splitNumber, ← scan_number hn] at hcut
  | case5 before c rest _ _ _ hw name ih =>
    have hname : IsName (c :: rest.takeWhile isWordChar) :=
      ⟨c, _, rfl, hw, fun _ hc => List.mem_takeWhile_imp hc⟩
    have hrest : (Region.code.after (c :: rest.takeWhile isWordChar)).Open
        (rest.dropWhile isWordChar) := by
      rw [Region.after_code hname.slash_notMem]
      exact Region.open_code _
    have hsplit : c :: rest = c :: rest.takeWhile isWordChar ++ rest.dropWhile isWordChar := by
      rw [List.cons_append, List.takeWhile_append_dropWhile]
    rw [scan_word hw, hsplit]
    split_ifs
    · exact cuts_other (List.cons_ne_nil _ _) hrest ih
    · exact cuts_word hname (head?_dropWhile rest) ih
  | case6 before c rest hline hblock hn hw ih =>
    have hc := noComment_of_forall hline hblock
    rw [scan_other hc (by simpa using hn) (by simpa using hw)]
    exact cuts_other (List.cons_ne_nil c []) (Region.open_other hc) ih

/-! ## Answered words -/

section Answers

def Piece.names : Piece → List String
  | .other _ => []
  | .word name => [String.ofList name]

theorem words_eq_flatMap (code : String) :
    words code = (scan none code.toList).flatMap Piece.names := by
  unfold words
  induction scan none code.toList with
  | nil => rfl
  | cons piece pieces ih => cases piece <;> simp [Piece.names, ih]

theorem words_of_isName {name : String} (h : IsName name.toList) : words name = [name] := by
  rw [words_eq_flatMap, scan_of_isName h]
  simp [Piece.names]

variable {ε : Type} {rename : String → Except ε (Option String)} {code text : String}

/-- What the pieces of a text become if every word is answered. -/
theorem filled_of_mapM : ∀ {pieces : List Piece} {texts : List (List Char)},
    pieces.mapM (Piece.replace rename) = .ok texts → ∃ answers : List (String × Option String),
      answers.map Prod.fst = pieces.flatMap Piece.names ∧
      (∀ a ∈ answers, rename a.1 = .ok a.2) ∧ Filled pieces answers texts
  | [], texts, h => by
    cases h
    exact ⟨[], rfl, nofun, .nil⟩
  | piece :: pieces, texts, h => by
    rw [List.mapM_cons] at h
    obtain ⟨text, htext, h⟩ := (bind_eq_ok_iff _ _ _).1 h
    obtain ⟨more, hmore, h⟩ := (bind_eq_ok_iff _ _ _).1 h
    cases h
    obtain ⟨answers, hwords, hanswers, hfilled⟩ := filled_of_mapM hmore
    cases piece with
    | other =>
      cases htext
      exact ⟨answers, hwords, hanswers, .other _ hfilled⟩
    | word name =>
      obtain ⟨answer, hanswer, htext⟩ := (bind_eq_ok_iff _ _ _).1 htext
      have hname : text = (answer.map String.toList).getD name := by
        rcases answer with _ | answer <;> cases htext <;> rfl
      rw [hname]
      refine ⟨(String.ofList name, answer) :: answers, ?_,
        List.forall_mem_cons.2 ⟨hanswer, hanswers⟩, .word name answer hfilled⟩
      rw [List.map_cons, hwords]
      rfl

theorem exists_answers (h : replaceWords rename code = .ok text) :
    ∃ answers : List (String × Option String), answers.map Prod.fst = words code ∧
      (∀ a ∈ answers, rename a.1 = .ok a.2) ∧ Replaced [] answers code.toList text.toList := by
  obtain ⟨texts, htexts, h⟩ := (bind_eq_ok_iff _ _ _).1 h
  cases h
  obtain ⟨answers, hwords, hanswers, hfilled⟩ := filled_of_mapM htexts
  refine ⟨answers, hwords.trans (words_eq_flatMap code).symm, hanswers, ?_⟩
  rw [String.toList_ofList]
  exact cuts_scan none code.toList [] answers texts (Region.open_code _) hfilled

/-- A text is code with a text in the place of every word of one spelling. -/
def Puts (word own code text : String) : Prop :=
  ∃ answers : List (String × Option String), answers.map Prod.fst = words code ∧
    Replaced [] answers code.toList text.toList ∧
    ∀ answer, (word, answer) ∈ answers → answer = some own

theorem puts_of_replaceWords {word own : String} (hword : rename word = .ok (some own))
    (h : replaceWords rename code = .ok text) : Puts word own code text := by
  obtain ⟨answers, hwords, hanswers, hreplaced⟩ := exists_answers h
  refine ⟨answers, hwords, hreplaced, fun answer hm => ?_⟩
  exact Except.ok.inj ((hanswers _ hm).symm.trans hword)

/-- Code that is nothing but the word becomes the text. -/
theorem Puts.eq_of_isName {word own : String} (hword : IsName word.toList)
    (h : Puts word own word text) : text = own := by
  obtain ⟨answers, hwords, hreplaced, hanswer⟩ := h
  rw [words_of_isName hword] at hwords
  obtain ⟨⟨name, answer⟩, rfl, hname⟩ := List.map_eq_singleton_iff.1 hwords
  dsimp only at hname
  subst hname
  rw [hanswer answer (List.mem_singleton_self _)] at hreplaced
  generalize hcode : name.toList = code at hreplaced
  generalize htext : text.toList = result at hreplaced
  generalize hanswers : [(name, some own)] = answers at hreplaced
  cases hreplaced with
  | rest => cases hanswers
  | @word _ gap word code result answer more _ _ _ hmore =>
    cases hanswers
    cases hmore with
    | rest =>
      -- the word is as long as the code, so nothing stands around it
      have hlength := congrArg List.length hcode
      simp only [String.toList_ofList, List.length_append] at hlength
      have hgap : gap = [] := List.length_eq_zero_iff.1 (by omega)
      have hrest : code = [] := List.length_eq_zero_iff.1 (by omega)
      subst hgap hrest
      rw [← String.toList_inj, htext]
      simp

end Answers

/-! ## Asking about words -/

section Asking

variable {ε σ : Type}

/-- What is said about words, in order. -/
abbrev Record (ε : Type) := List (String × Except ε (Option String))

/-- Asks as before and keeps a record. -/
def recording (ask : String → ExceptT ε (StateM σ) (Option String)) (word : String) :
    ExceptT ε (StateM (σ × Record ε)) (Option String) :=
  ExceptT.mk fun memory =>
    let (answer, s) := (ask word).run.run memory.1
    (answer, s, memory.2 ++ [(word, answer)])

/-- The pieces of a text are asked about from a first memory to a last one. -/
inductive Asked (ask : String → ExceptT ε (StateM σ) (Option String)) :
    σ → List Piece → Record ε → Except ε (List (List Char)) → σ → Prop
  | nil (s : σ) : Asked ask s [] [] (.ok []) s
  | other {s s' : σ} {pieces record result} (text : List Char)
    (h : Asked ask s pieces record result s') :
    Asked ask s (.other text :: pieces) record (result.map (text :: ·)) s'
  | answered {s s₁ s' : σ} {pieces record result answer} {name : List Char}
    (hanswer : (ask (String.ofList name)).run.run s = (.ok answer, s₁))
    (h : Asked ask s₁ pieces record result s') :
    Asked ask s (.word name :: pieces) ((String.ofList name, .ok answer) :: record)
      (result.map ((answer.map String.toList).getD name :: ·)) s'
  | failed {s s' : σ} {e : ε} {name : List Char} (pieces : List Piece)
    (he : (ask (String.ofList name)).run.run s = (.error e, s')) :
    Asked ask s (.word name :: pieces) [(String.ofList name, .error e)] (.error e) s'

section Runs

variable {α β : Type} {f : α → ExceptT ε (StateM σ) β} {a : α} {s s₁ : σ}

theorem run_mapM_cons_error {e : ε} (h : (f a).run.run s = (.error e, s₁)) (as : List α) :
    ((a :: as).mapM f).run.run s = (.error e, s₁) := by
  rw [List.mapM_cons, ExceptT.run_bind, StateT.run_bind, h]
  rfl

theorem run_mapM_cons_ok {b : β} {as : List α} {result : Except ε (List β)} {s' : σ}
    (h : (f a).run.run s = (.ok b, s₁)) (hmore : (as.mapM f).run.run s₁ = (result, s')) :
    ((a :: as).mapM f).run.run s = (result.map (b :: ·), s') := by
  rw [List.mapM_cons, ExceptT.run_bind, StateT.run_bind, h]
  change StateT.run (ExceptT.run (as.mapM f >>= _)) s₁ = _
  rw [ExceptT.run_bind, StateT.run_bind, hmore]
  cases result <;> rfl

variable {ask : String → ExceptT ε (StateM σ) (Option String)} {name : List Char}

theorem run_replace_error {e : ε} (h : (ask (String.ofList name)).run.run s = (.error e, s₁)) :
    (Piece.replace ask (.word name)).run.run s = (.error e, s₁) := by
  rw [Piece.replace, ExceptT.run_bind, StateT.run_bind, h]
  rfl

theorem run_replace_ok {answer : Option String}
    (h : (ask (String.ofList name)).run.run s = (.ok answer, s₁)) :
    (Piece.replace ask (.word name)).run.run s =
      (.ok ((answer.map String.toList).getD name), s₁) := by
  rw [Piece.replace, ExceptT.run_bind, StateT.run_bind, h]
  cases answer <;> rfl

theorem run_recording {answer : Except ε (Option String)} {word : String}
    (h : (ask word).run.run s = (answer, s₁)) (before : Record ε) :
    (recording ask word).run.run (s, before) = (answer, s₁, before ++ [(word, answer)]) := by
  change (((ask word).run.run s).1, ((ask word).run.run s).2,
    before ++ [(word, ((ask word).run.run s).1)]) = _
  rw [h]

end Runs

variable (ask : String → ExceptT ε (StateM σ) (Option String))

theorem exists_asked (pieces : List Piece) (s : σ) : ∃ record result s',
    Asked ask s pieces record result s' ∧
    (pieces.mapM (Piece.replace ask)).run.run s = (result, s') ∧
    ∀ before, (pieces.mapM (Piece.replace (recording ask))).run.run (s, before) =
      (result, s', before ++ record) := by
  induction pieces generalizing s with
  | nil =>
    refine ⟨[], .ok [], s, .nil s, rfl, fun before => ?_⟩
    rw [List.append_nil]
    rfl
  | cons piece pieces ih =>
    cases piece with
    | other text =>
      obtain ⟨record, result, s', h, hrun, hrecord⟩ := ih s
      exact ⟨record, _, s', .other text h, run_mapM_cons_ok rfl hrun,
        fun before => run_mapM_cons_ok rfl (hrecord before)⟩
    | word name =>
      rcases ha : (ask (String.ofList name)).run.run s with ⟨e | answer, s₁⟩
      · exact ⟨_, _, s₁, .failed pieces ha, run_mapM_cons_error (run_replace_error ha) pieces,
          fun before => run_mapM_cons_error (run_replace_error (run_recording ha before)) pieces⟩
      · obtain ⟨record, result, s', h, hrun, hrecord⟩ := ih s₁
        refine ⟨_, _, s', .answered ha h, run_mapM_cons_ok (run_replace_ok ha) hrun,
          fun before => ?_⟩
        rw [run_mapM_cons_ok (run_replace_ok (run_recording ha before)) (hrecord _),
          List.append_assoc]
        rfl

variable {ask} {s s' : σ} {pieces : List Piece} {record : Record ε}
  {result : Except ε (List (List Char))}

namespace Asked

/-- Without a failure there is an answer about every word. -/
theorem filled (h : Asked ask s pieces record result s') {texts : List (List Char)}
    (hok : result = .ok texts) : ∃ answers,
      record = answers.map (fun a => (a.1, .ok a.2)) ∧ Filled pieces answers texts := by
  induction h generalizing texts with
  | nil =>
    cases hok
    exact ⟨[], rfl, .nil⟩
  | @other _ _ _ _ result text _ ih =>
    rcases result with e | more
    · cases hok
    · cases hok
      obtain ⟨answers, hrecord, hfilled⟩ := ih rfl
      exact ⟨answers, hrecord, .other text hfilled⟩
  | @answered _ _ _ _ _ result answer name _ _ ih =>
    rcases result with e | more
    · cases hok
    · cases hok
      obtain ⟨answers, rfl, hfilled⟩ := ih rfl
      exact ⟨(String.ofList name, answer) :: answers, rfl, .word name answer hfilled⟩
  | failed => cases hok

theorem error_iff (h : Asked ask s pieces record result s') (e : ε) :
    result = .error e ↔ ∃ word, (word, .error e) ∈ record := by
  induction h with
  | nil => simp
  | @other _ _ _ _ result _ _ ih =>
    rw [← ih]
    cases result <;> simp [Except.map]
  | @answered _ _ _ _ _ result _ _ _ _ ih =>
    simp only [List.mem_cons, Prod.mk.injEq, reduceCtorEq, and_false, false_or]
    rw [← ih]
    cases result <;> simp [Except.map]
  | failed => simp [eq_comm]

/-- Nothing is asked after a failure. -/
theorem answered_of_mem_dropLast (h : Asked ask s pieces record result s')
    {entry : String × Except ε (Option String)} (hentry : entry ∈ record.dropLast) :
    ∃ answer, entry.2 = .ok answer := by
  induction h with
  | nil => cases hentry
  | other _ _ ih => exact ih hentry
  | @answered _ _ _ _ record _ answer _ _ _ ih =>
    rcases record with _ | ⟨next, record⟩
    · cases hentry
    · rw [List.dropLast_cons_cons, List.mem_cons] at hentry
      rcases hentry with rfl | hentry
      · exact ⟨answer, rfl⟩
      · exact ih hentry
  | failed => cases hentry

theorem words_isPrefix (h : Asked ask s pieces record result s') :
    record.map Prod.fst <+: pieces.filterMap fun
      | .word name => some (String.ofList name)
      | .other _ => none := by
  induction h with
  | nil => exact List.prefix_rfl
  | other _ _ ih => exact ih
  | answered _ _ ih => exact (List.prefix_cons_inj _).2 ih
  | failed pieces _ => exact ⟨_, rfl⟩

theorem texts_of_none (h : Asked ask s pieces record result s')
    (hnone : ∀ word s, ((ask word).run.run s).1 = .ok none) :
    result = .ok (pieces.map Piece.text) := by
  induction h with
  | nil => rfl
  | other text _ ih =>
    rw [ih]
    rfl
  | @answered s _ _ _ _ _ answer name ha _ ih =>
    have hanswer := hnone (String.ofList name) s
    rw [ha] at hanswer
    cases hanswer
    rw [ih]
    rfl
  | @failed s _ _ name _ he =>
    have hanswer := hnone (String.ofList name) s
    rw [he] at hanswer
    cases hanswer

end Asked

theorem extract_middle (a b c : ByteArray) :
    (a ++ (b ++ c)).extract a.size (a.size + b.size) = b := by
  have h := ByteArray.extract_append_size_add (a := a) (b := b ++ c) (i := 0) (j := b.size)
  rwa [Nat.add_zero, ByteArray.extract_append_eq_left rfl] at h

/-- Every piece of a text can be cut out of its bytes. -/
theorem fromUTF8?_extract_piece {code : String} {before after : List Piece} {piece : Piece}
    (h : scan none code.toList = before ++ piece :: after) {start stop : Nat}
    (hstart : start = (String.ofList (before.flatMap Piece.text)).utf8ByteSize)
    (hstop : stop = start + (String.ofList piece.text).utf8ByteSize) :
    String.fromUTF8? (code.toUTF8.extract start stop) = some (String.ofList piece.text) := by
  have hcode : code = String.ofList (before.flatMap Piece.text) ++ (String.ofList piece.text ++
      String.ofList (after.flatMap Piece.text)) := by
    rw [← String.toList_inj]
    nth_rewrite 1 [← text_scan none code.toList]
    simp [h]
  have hbytes : code.toUTF8.extract start stop = (String.ofList piece.text).toByteArray := by
    rw [hstop, hstart, hcode, String.toUTF8_eq_toByteArray, String.toByteArray_append,
      String.toByteArray_append, ← String.size_toByteArray, ← String.size_toByteArray]
    exact extract_middle _ _ _
  rw [hbytes, String.fromUTF8?, dif_pos (String.isValidUTF8 _)]
  rfl

/-- A text is replaced word by word: nothing but words changes, each of them a whole name outside
of comments, and the first failure is the end. -/
theorem replaceWords_exact (ask : String → ExceptT ε (StateM σ) (Option String)) (code : String)
    (s : σ) : ∃ (record : Record ε) (result : Except ε String) (s' : σ),
    (replaceWords (recording ask) code).run.run (s, []) = (result, s', record) ∧
    (replaceWords ask code).run.run s = (result, s') ∧
    (∀ text, result = .ok text → ∃ answers, record = answers.map (fun a => (a.1, .ok a.2)) ∧
      Replaced [] answers code.toList text.toList) ∧
    (∀ e, result = .error e ↔ ∃ word, (word, .error e) ∈ record) ∧
    (∀ entry ∈ record.dropLast, ∃ answer, entry.2 = .ok answer) ∧
    record.map Prod.fst <+: words code ∧
    ((∀ word s, ((ask word).run.run s).1 = .ok none) → result = .ok code) ∧
    ∀ before piece after start, scan none code.toList = before ++ piece :: after →
      start = (String.ofList (before.flatMap Piece.text)).utf8ByteSize →
      String.fromUTF8? (code.toUTF8.extract start
        (start + (String.ofList piece.text).utf8ByteSize)) = some (String.ofList piece.text) := by
  obtain ⟨record, texts, s', h, hrun, hrecord⟩ := exists_asked ask (scan none code.toList) s
  refine ⟨record, texts.map fun texts => String.ofList texts.flatten, s', ?_, ?_, ?_, ?_,
    fun entry => h.answered_of_mem_dropLast, h.words_isPrefix, ?_, ?_⟩
  · rw [replaceWords, ExceptT.run_bind, StateT.run_bind, hrecord]
    cases texts <;> rfl
  · rw [replaceWords, ExceptT.run_bind, StateT.run_bind, hrun]
    cases texts <;> rfl
  · intro text htext
    rcases texts with e | texts
    · cases htext
    · cases htext
      obtain ⟨answers, hanswers, hfilled⟩ := h.filled rfl
      refine ⟨answers, hanswers, ?_⟩
      rw [String.toList_ofList]
      exact cuts_scan none code.toList [] answers texts (Region.open_code _) hfilled
  · intro e
    rw [← h.error_iff]
    cases texts <;> simp [Except.map]
  · intro hnone
    rw [h.texts_of_none hnone]
    change Except.ok (String.ofList ((scan none code.toList).map Piece.text).flatten) = _
    rw [← List.flatMap_def, text_scan, String.ofList_toList]
  · exact fun before piece after start hscan hstart => fromUTF8?_extract_piece hscan hstart rfl

end Asking

end ShaderGraph.Glsl
