import ShaderGraph.Proofs.Execution

/-!
# Expressions as values

Names can stand for texts. The value of an expression is then its text with the texts of its names
put in, and a number is widened by the brackets and the type that the language has for it. This
respects the language for every diagram whose generated names are words (`lawful_expansion`), and
they are words if the names of ports, outputs and uniforms consist of word characters.
-/

namespace ShaderGraph

namespace Glsl

variable {ε : Type}

/-- The answers of `rename` for the words of a text. -/
def answers (rename : String → Except ε (Option String)) (name : List Char) :
    Option (List Char) :=
  match rename (String.ofList name) with
  | .ok (some text) => some text.toList
  | _ => none

theorem exists_of_answers {rename : String → Except ε (Option String)} {name text : List Char}
    (h : answers rename name = some text) :
    ∃ answer, rename (String.ofList name) = .ok (some answer) ∧ answer.toList = text := by
  unfold answers at h
  split at h
  · rename_i answer hrename
    exact ⟨answer, hrename, Option.some.inj h⟩
  · cases h

theorem toList_replaceWords {rename : String → Except ε (Option String)} {code text : String}
    (h : replaceWords rename code = .ok text) :
    text.toList = (scan none code.toList).flatMap (Piece.fill (answers rename)) := by
  have hpieces : ∀ {l : List Piece} {l' : List (List Char)},
      l.mapM (Piece.replace rename) = .ok l' →
        l'.flatten = l.flatMap (Piece.fill (answers rename)) := by
    intro l
    induction l with
    | nil =>
      intro l' hl
      cases hl
      rfl
    | cons p l ih =>
      intro l' hl
      obtain ⟨t, ht, hl⟩ := (bind_eq_ok_iff _ _ _).1 (List.mapM_cons.symm.trans hl)
      obtain ⟨ts, hts, hl⟩ := (bind_eq_ok_iff _ _ _).1 hl
      cases hl
      have hp : t = p.fill (answers rename) := by
        rcases p with text | name
        · cases ht
          rfl
        · obtain ⟨answer, hanswer, ht⟩ := (bind_eq_ok_iff _ _ _).1 ht
          simp only [Piece.fill, answers, hanswer]
          rcases answer with _ | text <;> cases ht <;> rfl
      rw [List.flatten_cons, List.flatMap_cons, ih hts, hp]
  obtain ⟨pieces, hl, ht⟩ := (bind_eq_ok_iff _ _ _).1 h
  cases ht
  rw [String.toList_ofList, hpieces hl]

end Glsl

open Glsl

/-- The text of a piece in an environment. Types are no variables. -/
def Glsl.Piece.spell (ρ : String → List Char) : Piece → List Char
  | .other text => text
  | .word name =>
    if Kind.all.any (·.type.toList == name) then name else ρ (String.ofList name)

/-- Expressions stand for the texts that they become when names are replaced by their texts. -/
def Evaluator.expansion : Evaluator (List Char) where
  eval ρ code := (scan none code.toList).flatMap (Piece.spell ρ)
  splat n x := ("vec" ++ toString n).toList ++ '(' :: (x ++ [')'])

theorem Kind.isName_type (kind : Kind) : IsName kind.type.toList := by
  cases kind <;> exact ⟨_, _, rfl, by decide, List.all_eq_true.1 (by decide)⟩

theorem Kind.type_eq {kind : Kind} (h : kind ≠ .float) :
    kind.type.toList = ("vec" ++ toString kind.components).toList := by
  cases kind
  · exact absurd rfl h
  all_goals decide

theorem spell_type (kind : Kind) (ρ : String → List Char) :
    (Piece.word kind.type.toList).spell ρ = kind.type.toList := by
  have hmem : kind ∈ Kind.all := by cases kind <;> decide
  exact if_pos (List.any_eq_true.2 ⟨kind, hmem, by simp⟩)

theorem spell_name {name : String} (h : '_' ∈ name.toList) (ρ : String → List Char) :
    (Piece.word name.toList).spell ρ = ρ name := by
  refine (if_neg fun hany => ?_).trans (by rw [String.ofList_toList])
  obtain ⟨kind, -, hk⟩ := List.any_eq_true.1 hany
  exact absurd (kind.isLiteralChar_of_mem_type '_' (beq_iff_eq.1 hk ▸ h)) (by decide)

theorem Reference.spelling {word : String} (h : Reference.ofWord word ≠ .ambient) :
    ∃ c rest, word.toList = c :: rest ∧ c.isAlpha = true ∧ '_' ∈ rest := by
  unfold Reference.ofWord at h
  split at h
  · rename_i rest hw
    exact ⟨_, _, hw, by decide, by simp⟩
  · rename_i rest hw
    exact ⟨_, _, hw, by decide, by simp⟩
  · rename_i rest hw
    exact ⟨_, _, hw, by decide, by simp⟩
  · exact absurd rfl h

theorem spell_congr {ρ σ : String → List Char} {name : List Char}
    (h : ρ (String.ofList name) = σ (String.ofList name)) :
    (Piece.word name).spell ρ = (Piece.word name).spell σ := by
  simp only [Piece.spell, h]

section Lawful

variable {d : Diagram} (hd : ∀ name, d.Generated name → IsName name.toList)
include hd

theorem Diagram.Atom.slash_notMem {text : String} (h : d.Atom text) : '/' ∉ text.toList := by
  rcases h with hgen | @⟨-, -, -, v, -⟩
  · exact (hd _ hgen).slash_notMem
  · exact v.slash_notMem_toGlsl

theorem Diagram.Readable.simple {text : String} (h : d.Readable text) : Simple text.toList := by
  rcases h with hgen | @⟨name, kind, hgen, -⟩
  · exact .name (hd _ hgen)
  · have := Simple.call kind.isName_type (hd _ hgen)
    simpa using this

/-- Words that are replaced have the values of what they are replaced by. -/
theorem Evaluator.expansion_replace {rename : String → Except CompileError (Option String)}
    {code text : String} (h : ∀ word answer, rename word = .ok (some answer) →
      Reference.ofWord word ≠ .ambient ∧ d.Readable answer)
    (htext : replaceWords rename code = .ok text) (ρ : String → List Char) :
    expansion.eval ρ text = expansion.eval (fun word => match rename word with
      | .ok (some answer) => expansion.eval ρ answer
      | _ => ρ word) code := by
  have hf : ∀ name text, answers rename name = some text →
      (∃ c rest, name = c :: rest ∧ c.isAlpha = true) ∧ Simple text := by
    intro name text hr
    obtain ⟨answer, hrename, rfl⟩ := exists_of_answers hr
    obtain ⟨hword, hread⟩ := h _ _ hrename
    obtain ⟨c, rest, hname, hc, -⟩ := Reference.spelling hword
    exact ⟨⟨c, rest, by simpa using hname, hc⟩, hread.simple hd⟩
  change (scan none text.toList).flatMap (Piece.spell ρ) = _
  rw [toList_replaceWords htext, scan_fill hf (fun _ _ _ => rfl) none _ none (.same none)]
  refine List.flatMap_congr fun p _ => ?_
  rcases p with text | name
  · rfl
  · simp only [Piece.expand]
    rcases hr : answers rename name with _ | text
    · refine spell_congr ?_
      split
      · rename_i answer hrename
        simp [answers, hrename] at hr
      · rfl
    · obtain ⟨answer, hrename, rfl⟩ := exists_of_answers hr
      obtain ⟨c, rest, hname, -, hmem⟩ := Reference.spelling (h _ _ hrename).1
      have hspell := fun σ => spell_name (hname ▸ List.mem_cons_of_mem c hmem) σ
      rw [String.toList_ofList] at hspell
      refine Eq.trans ?_ (hspell _).symm
      simp only [hrename]
      rfl

/-- Texts as values respect the language, if the names that are generated are words. -/
theorem Evaluator.lawful_expansion : expansion.Lawful d where
  congr {ρ σ code} h := by
    refine List.flatMap_congr fun p hp => ?_
    rcases p with text | name
    · rfl
    · refine spell_congr (h _ ?_)
      rw [mem_words, String.toList_ofList]
      exact hp
  name {name} h ρ := by
    change (scan none name.toList).flatMap (Piece.spell ρ) = ρ name
    rw [scan_of_isName (hd name h), List.flatMap_singleton, spell_name h.underscore_mem]
  widen {expr} h {kind} hkind ρ := by
    have htext : (kind.type ++ "(" ++ expr ++ ")").toList =
        kind.type.toList ++ '(' :: (expr.toList ++ ')' :: []) := by
      simp
    change (scan none (kind.type ++ "(" ++ expr ++ ")").toList).flatMap (Piece.spell ρ) =
      ("vec" ++ toString kind.components).toList ++
        '(' :: ((scan none expr.toList).flatMap (Piece.spell ρ) ++ [')'])
    rw [htext, scan_brackets kind.isName_type (h.slash_notMem hd), if_neg (by simp),
      List.flatMap_cons, spell_type, ← Kind.type_eq hkind]
    simp [scan, Piece.spell]
  replace h htext ρ := expansion_replace hd h htext ρ

end Lawful

/-! ## Spelling of names -/

namespace Glsl

theorem IsName.append {a b : List Char} (ha : IsName a)
    (hb : ∀ c ∈ b, Glsl.isWordChar c = true) : IsName (a ++ b) := by
  obtain ⟨c, rest, rfl, hc, hrest⟩ := ha
  refine ⟨c, rest ++ b, rfl, hc, ?_⟩
  rw [List.forall_mem_append]
  exact ⟨hrest, hb⟩

/-- Whether a text starts like a generated name: with a capital letter, in front of which `v_` or
`u_` can stand. -/
def startsGenerated : List Char → Bool
  | 'v' :: '_' :: c :: _ | 'u' :: '_' :: c :: _ => c.isUpper
  | c :: _ => c.isUpper
  | [] => false

theorem startsGenerated_cons {c : Char} (h : c.isUpper = true) (rest : List Char) :
    startsGenerated (c :: rest) = true := by
  have hv : c ≠ 'v' := by
    rintro rfl
    cases h
  have hu : c ≠ 'u' := by
    rintro rfl
    cases h
  simpa [startsGenerated, hv, hu] using h

theorem isWordChar_of_isAlphanum {c : Char} (h : c.isAlphanum = true) : isWordChar c = true := by
  unfold isWordChar
  rw [h]
  rfl

end Glsl

theorem ident_eq_cons (name : String) (n : Nat) : ∃ c rest, (ident name n).toList = c :: rest ∧
    c.isUpper = true ∧ ∀ c ∈ rest, isWordChar c = true := by
  obtain ⟨c, rest, hstem, hc⟩ := stemChars_eq_cons name.toList
  refine ⟨c, rest ++ '_' :: Nat.toDigits 10 n, by rw [toList_ident, hstem]; rfl, hc, ?_⟩
  simp only [List.forall_mem_append, List.forall_mem_cons]
  refine ⟨fun c' hc' => ?_, by decide, fun c' hc' => ?_⟩
  · exact isWordChar_of_isAlphanum
      (isAlphanum_of_mem_stemChars (hstem ▸ List.mem_cons_of_mem c hc'))
  · have := Nat.isDigit_of_mem_toDigits (by decide) (by decide) hc'
    exact isWordChar_of_isAlphanum (by simp [Char.isAlphanum, this])

/-- The name of what a label is for. -/
def Label.text : Label → String
  | .input name | .output name | .varying name | .uniform name => name

section Label

variable {e : Entry} {n : Nat} (he : e.ident = ident e.node.name n)
include he

theorem isName_label {l : Label} (hl : ∀ c ∈ l.text.toList, isWordChar c = true) :
    IsName (e.label l).toList := by
  obtain ⟨c, rest, hident, hc, hrest⟩ := ident_eq_cons e.node.name n
  have hstart : isWordStart c = true := by
    unfold isWordStart Char.isAlpha
    rw [hc]
    rfl
  have hname : IsName e.ident.toList := by
    rw [he]
    exact ⟨c, rest, hident, hstart, hrest⟩
  have hall : ∀ c ∈ e.ident.toList, isWordChar c = true := fun _ => hname.isWordChar
  cases l
  · rw [Entry.toList_label_input]
    refine hname.append ?_
    simp only [List.forall_mem_cons]
    exact ⟨by decide, by decide, by decide, by decide, hl⟩
  · rw [Entry.toList_label_output]
    refine hname.append ?_
    simp only [List.forall_mem_cons]
    exact ⟨by decide, by decide, by decide, by decide, by decide, hl⟩
  · rw [Entry.toList_label_varying]
    refine ⟨'v', _, rfl, by decide, ?_⟩
    simp only [List.forall_mem_cons, List.forall_mem_append]
    exact ⟨by decide, hall, by decide, hl⟩
  · rw [Entry.toList_label_uniform]
    refine ⟨'u', _, rfl, by decide, ?_⟩
    simp only [List.forall_mem_cons, List.forall_mem_append]
    exact ⟨by decide, hall, by decide, hl⟩

theorem startsGenerated_label (l : Label) : startsGenerated (e.label l).toList = true := by
  obtain ⟨c, rest, hident, hc, -⟩ := ident_eq_cons e.node.name n
  cases l <;> simp only [Entry.toList_label_input, Entry.toList_label_output,
    Entry.toList_label_varying, Entry.toList_label_uniform, he, hident, List.cons_append]
  · exact startsGenerated_cons hc _
  · exact startsGenerated_cons hc _
  · exact hc
  · exact hc

end Label

namespace Node

variable {ρ σ : Type} (n : Node ρ)

/-- The names that the ports, the outputs and the uniform of a node have. -/
def names : List String :=
  n.inputs.keys ++ n.design.outputs.keys ++ n.design.clock.toList.map Clock.uniform

theorem names_map (f : ρ → σ) : (n.map f).names = n.names := by
  simp only [names, map, Table.keys_map]

/-- Whether a node consists of expressions without words that start like generated names or refer
to outputs. -/
def isPlain : Bool :=
  Stage.all.all (fun stage => (n.design.code stage).body.isNone) &&
  n.design.outputs.values.all (fun spec => spec.expr.toList.all fun code =>
    (words code).all fun word => !startsGenerated word.toList &&
      match Reference.ofWord word with
      | .output _ => false
      | _ => true) &&
  n.inputs.values.all fun port =>
    match port.source with
    | some (.raw expr) => (words expr).all fun word => !startsGenerated word.toList
    | _ => true

variable {n}

theorem Names.text_mem {l : Label} (h : n.Names l) : l.text ∈ n.names := by
  unfold names
  cases h <;> simp_all [Label.text]

end Node

namespace Walk.Explores

variable {s : Store} {root : NodeId} {w : Walk} (hw : Explores s root w)
include hw

theorem isName_generated (h : ∀ n ∈ w.ids, ∀ name ∈ (s.get n).toNode.names, ∀ c ∈ name.toList,
    isWordChar c = true) : ∀ name, w.diagram.Generated name → IsName name.toList := by
  rintro name ⟨i, hi, l, hl, rfl⟩
  obtain ⟨n, hn, rfl⟩ := hw.exists_idxOf hi
  have hmem := hl.text_mem
  rw [hw.node_idxOf hn, Node.names_map] at hmem
  exact isName_label (hw.wellFormed.ident_eq _ hi) (h n hn _ hmem)

end Walk.Explores

end ShaderGraph
