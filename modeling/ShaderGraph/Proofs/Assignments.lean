import ShaderGraph.Proofs.Availability
import ShaderGraph.Proofs.Expansion

/-!
# Names that a node assigns

Code assigns a name if the sign of an assignment stands behind it, with members, indices and
closing brackets in between. When words are replaced, the names that a text assigns are what the
words stand for that its code assigns (`assigned_replaceWords`).
-/

namespace ShaderGraph

namespace Glsl

/-! ## Assigned names -/

inductive Token where
  | word (name : String)
  | char (c : Char)
deriving DecidableEq

def isComment : List Char → Bool
  | '/' :: '/' :: _ | '/' :: '*' :: _ => true
  | _ => false

/-- The tokens of a piece; a comment counts as a blank. -/
def Piece.tokens : Piece → List Token
  | .word name => [.word (String.ofList name)]
  | .other text => if isComment text then [.char ' '] else text.map .char

theorem Piece.tokens_other (text : List Char) :
    (Piece.other text).tokens = if isComment text then [.char ' '] else text.map .char := rfl

def tokens (code : String) : List Token := (scan none code.toList).flatMap Piece.tokens

/-- Whether a name is assigned that stands in front of the tokens, inside of as many indices. -/
def assigns : Nat → List Token → Bool
  | _, [] => false
  | 0, .word _ :: _ => false
  | 0, .char c :: rest =>
    if c = '=' then rest.head? ≠ some (.char '=')
    else if c = '+' ∨ c = '-' ∨ c = '*' ∨ c = '/' then rest.head? = some (.char '=')
    else if c = '[' then assigns 1 rest
    else (isBlank c || isWordChar c || c == '.' || c == ')') && assigns 0 rest
  | depth + 1, .word _ :: rest => assigns (depth + 1) rest
  | depth + 1, .char c :: rest =>
    assigns (if c = '[' then depth + 2 else if c = ']' then depth else depth + 1) rest

/-- The names in tokens that are assigned. -/
def assignedIn : List Token → List String
  | [] => []
  | .word name :: rest => if assigns 0 rest then name :: assignedIn rest else assignedIn rest
  | .char _ :: rest => assignedIn rest

/-- The names that a text assigns. -/
def assigned (code : String) : List String := assignedIn (tokens code)

theorem assigns_of_notMem (depth : Nat) (l : List Token) (h : .char '=' ∉ l) :
    assigns depth l = false := by
  fun_induction assigns depth l with
  | case1 => rfl
  | case2 => rfl
  | case3 => simp at h
  | case4 c rest =>
    rw [decide_eq_false_iff_not]
    exact fun hc => h (List.mem_cons_of_mem _ (List.mem_of_mem_head? hc))
  | case5 rest _ _ ih => exact ih fun hm => h (List.mem_cons_of_mem _ hm)
  | case6 c rest _ _ _ ih =>
    rw [ih fun hm => h (List.mem_cons_of_mem _ hm), Bool.and_false]
  | case7 depth name rest ih => exact ih fun hm => h (List.mem_cons_of_mem _ hm)
  | case8 depth c rest ih => exact ih fun hm => h (List.mem_cons_of_mem _ hm)

theorem assignedIn_of_notMem : ∀ {l : List Token}, .char '=' ∉ l → assignedIn l = []
  | [], _ => rfl
  | .word name :: rest, h => by
    have hrest : .char '=' ∉ rest := fun hm => h (List.mem_cons_of_mem _ hm)
    rw [assignedIn, assigns_of_notMem 0 rest hrest, assignedIn_of_notMem hrest]
    rfl
  | .char c :: rest, h => assignedIn_of_notMem (l := rest) fun hm => h (List.mem_cons_of_mem _ hm)

/-- A text assigns nothing without a sign for it. -/
theorem assigned_of_notMem {code : String} (h : '=' ∉ code.toList) : assigned code = [] := by
  refine assignedIn_of_notMem fun hm => h ?_
  obtain ⟨piece, hpiece, hm⟩ := List.mem_flatMap.1 hm
  rw [← text_scan none code.toList]
  refine List.mem_flatMap.2 ⟨piece, hpiece, ?_⟩
  cases piece with
  | word name => simp [Piece.tokens] at hm
  | other text =>
    rw [Piece.tokens_other] at hm
    split_ifs at hm
    · simp at hm
    · obtain ⟨c, hc, he⟩ := List.mem_map.1 hm
      cases he
      exact hc

example : assigned "in_a.x += 1.0; if (in_b == in_c) (out_d)[0] = in_a;" = ["in_a", "out_d"] := by
  decide +kernel

/-! ## Replaced words -/

/-- A name by itself, or in brackets behind another one. -/
def Holds (x : String) (l : List Token) : Prop :=
  l = [.word x] ∨ ∃ type, l = [.word type, .char '(', .word x, .char ')']

def Token.expand (e : String → List Token) : Token → List Token
  | .word name => e name
  | .char c => [.char c]

section Expand

variable {e : String → List Token} {held : String → String}
variable (he : ∀ name, Holds (held name) (e name))
include he

theorem head?_expand (l : List Token) (c : Char) :
    (l.flatMap (Token.expand e)).head? = some (.char c) ↔ l.head? = some (.char c) := by
  rcases l with _ | ⟨name | c', l⟩
  · rfl
  · rw [List.flatMap_cons, Token.expand]
    rcases he name with h | ⟨type, h⟩ <;> rw [h] <;> simp
  · rfl

theorem assigns_expand (depth : Nat) (l : List Token) :
    assigns depth (l.flatMap (Token.expand e)) = assigns depth l := by
  fun_induction assigns depth l with
  | case1 => simp [assigns]
  | case2 name rest =>
    rw [List.flatMap_cons, Token.expand]
    rcases he name with h | ⟨type, h⟩ <;> rw [h] <;> simp [assigns]
  | case3 rest =>
    change assigns 0 (.char '=' :: rest.flatMap (Token.expand e)) = _
    simp only [assigns, if_true, ne_eq, head?_expand he]
  | case4 c rest h₁ h₂ =>
    change assigns 0 (.char c :: rest.flatMap (Token.expand e)) = _
    rw [assigns, if_neg h₁, if_pos h₂]
    simp only [head?_expand he]
  | case5 rest h₁ h₂ ih => exact ih
  | case6 c rest h₁ h₂ h₃ ih =>
    change assigns 0 (.char c :: rest.flatMap (Token.expand e)) = _
    rw [assigns, if_neg h₁, if_neg h₂, if_neg h₃, ih]
  | case7 depth name rest ih =>
    rw [List.flatMap_cons, Token.expand]
    rcases he name with h | ⟨type, h⟩ <;> rw [h] <;> simpa [assigns] using ih
  | case8 depth c rest ih => exact ih

/-- What stands for a word is assigned where the word is. -/
theorem assignedIn_expand : ∀ l : List Token,
    assignedIn (l.flatMap (Token.expand e)) = (assignedIn l).map held
  | [] => rfl
  | .char c :: rest => assignedIn_expand rest
  | .word name :: rest => by
    have hrest := assignedIn_expand rest
    have hassigns := assigns_expand he 0 rest
    rw [List.flatMap_cons, Token.expand]
    rcases he name with h | ⟨type, h⟩ <;> rw [h]
    · rw [List.singleton_append, assignedIn, assignedIn, hassigns, hrest, apply_ite (List.map held)]
      rfl
    · have hclosed : assigns 0 (.char ')' :: rest.flatMap (Token.expand e)) = assigns 0 rest := by
        rw [← hassigns]
        rfl
      simp only [List.cons_append, List.nil_append, assignedIn, hclosed, hrest]
      rw [apply_ite (List.map held)]
      rfl

end Expand

theorem tokens_name {name : String} (h : IsName name.toList) : tokens name = [.word name] := by
  rw [tokens, scan_of_isName h, List.flatMap_singleton, Piece.tokens, String.ofList_toList]

theorem tokens_widen {name : String} (h : IsName name.toList) (source target : Kind) :
    Holds name (tokens (widen name source target)) := by
  unfold widen
  split_ifs
  · have htext : (target.type ++ "(" ++ name ++ ")").toList =
        target.type.toList ++ '(' :: (name.toList ++ ')' :: []) := by
      simp
    have htokens : tokens (target.type ++ "(" ++ name ++ ")") =
        [.word target.type, .char '(', .word name, .char ')'] := by
      rw [tokens, htext, scan_brackets target.isName_type h.slash_notMem, if_neg (by simp),
        scan_of_isName h]
      simp [scan, Piece.tokens, isComment]
    rw [htokens]
    exact .inr ⟨_, rfl⟩
  · exact .inl (tokens_name h)

section Replace

variable {ε : Type} {rename : String → Except ε (Option String)} {held : String → String}

/-- The tokens in the place of a word. -/
def respelled (rename : String → Except ε (Option String)) (word : String) : List Token :=
  match rename word with
  | .ok (some answer) => tokens answer
  | _ => [.word word]

theorem tokens_expand (piece : Piece) : piece.expand (answers rename) Piece.tokens =
    piece.tokens.flatMap (Token.expand (respelled rename)) := by
  cases piece with
  | other text =>
    change (Piece.other text).tokens = _
    rw [Piece.tokens_other]
    split_ifs
    · rfl
    · rw [List.flatMap_map]
      exact List.map_eq_flatMap
  | word name =>
    simp only [Piece.expand, Piece.tokens, answers, List.flatMap_singleton, Token.expand,
      respelled]
    rcases rename (String.ofList name) with _ | _ | answer <;> rfl

/-- A text with replaced words assigns what stands for the words that its code assigns. -/
theorem assigned_replaceWords {code text : String}
    (hanswer : ∀ word answer, rename word = .ok (some answer) →
      Reference.ofWord word ≠ .ambient ∧ Simple answer.toList ∧ Holds (held word) (tokens answer))
    (hkept : ∀ word, (∀ answer, rename word ≠ .ok (some answer)) → held word = word)
    (htext : replaceWords rename code = .ok text) : assigned text = (assigned code).map held := by
  have hf : ∀ name text, answers rename name = some text →
      (∃ c rest, name = c :: rest ∧ c.isAlpha = true) ∧ Simple text := by
    intro name text hr
    obtain ⟨answer, hrename, rfl⟩ := exists_of_answers hr
    obtain ⟨hword, hsimple, -⟩ := hanswer _ _ hrename
    obtain ⟨c, rest, hname, hc, -⟩ := Reference.spelling hword
    exact ⟨⟨c, rest, by simpa using hname, hc⟩, hsimple⟩
  have hpoint : ∀ c rest, c.isDigit = true → Piece.tokens (.other ('.' :: c :: rest)) =
      Piece.tokens (.other ['.']) ++ Piece.tokens (.other (c :: rest)) := by
    intro c rest hc
    have hcode : isComment (c :: rest) = false := by
      unfold isComment
      split <;> simp_all
    rw [Piece.tokens_other, Piece.tokens_other, Piece.tokens_other, hcode]
    rfl
  have htokens : tokens text = (tokens code).flatMap (Token.expand (respelled rename)) := by
    rw [tokens, toList_replaceWords htext, scan_fill hf hpoint none _ none (.same none),
      tokens, List.flatMap_assoc]
    exact List.flatMap_congr fun piece _ => tokens_expand piece
  have hholds : ∀ word, Holds (held word) (respelled rename word) := by
    intro word
    unfold respelled
    split
    · rename_i answer hrename
      exact (hanswer word answer hrename).2.2
    · rename_i hrename
      rw [hkept word hrename]
      exact .inl rfl
  rw [assigned, htokens, assignedIn_expand hholds]
  rfl

end Replace

end Glsl

open Glsl

/-! ## Blocks -/

/-- The texts in a statement that are code. -/
def Statement.texts : Statement → List String
  | .comment _ => []
  | .declare _ _ init => [init]
  | .block code => [code]
  | .assign _ expr => [expr]

/-- Statements write a name, or a text in them assigns it. -/
def Assigns (l : List Statement) (name : String) : Prop :=
  name ∈ targets l ∨ ∃ st ∈ l, ∃ text ∈ st.texts, name ∈ assigned text

/-- What the author of a node has written for a stage: its raw sources and its code. -/
def Node.textsIn {ρ : Type} (n : Node ρ) (stage : Stage) : List String :=
  n.inputs.values.filterMap (fun port =>
    match port.source with
    | some (.raw expr) => some expr
    | _ => none) ++ n.design.codeIn stage

/-- A name is generated for a node other than `i`. -/
def Diagram.Foreign (d : Diagram) (i : Nat) (name : String) : Prop :=
  ∃ j < d.entries.length, j ≠ i ∧ ∃ l, (d.entry j).node.Names l ∧ name = (d.entry j).label l

namespace Plan

/-- What a word of a node's code stands for. -/
def standsFor (p : Plan) (stage : Stage) (i : Nat) (word : String) : String :=
  let e := p.diagram.entry i
  match Reference.ofWord word with
  | .input name =>
    match e.node.inputs.get? name with
    | some port =>
      match port.edge? with
      | some (producer, output) => p.variableOf stage producer output
      | none => e.inputName name
    | none => word
  | .output name => if e.node.design.outputs.contains name then e.outputName name else word
  | .uniform name =>
    match e.node.design.clock with
    | some clock => if clock.uniform = name then e.uniformName clock else word
    | none => word
  | .ambient => word

/-- The node assigns a name through an input that an edge leads to. -/
def AssignsThrough (p : Plan) (stage : Stage) (i : Nat) (name : String) : Prop :=
  ∃ code ∈ (p.diagram.design i).codeIn stage, ∃ input producer output,
    (p.diagram.entry i).node.Edge input producer output ∧ "in_" ++ input ∈ assigned code ∧
      name = p.variableOf stage producer output

section Stages

variable {d : Diagram} {stage : Stage} (hd : d.WellFormed) (hp : (ofDiagram d).PortsFit)
variable (hnames : ∀ name, d.Generated name → IsName name.toList)

theorem standsFor_eq (i : Nat) (word : String) : (ofDiagram d).standsFor stage i word =
    match Reference.ofWord word with
    | .input name =>
      match (d.entry i).node.inputs.get? name with
      | some port =>
        match port.edge? with
        | some (producer, output) => (ofDiagram d).variableOf stage producer output
        | none => (d.entry i).inputName name
      | none => word
    | .output name =>
      if (d.entry i).node.design.outputs.contains name then (d.entry i).outputName name else word
    | .uniform name =>
      match (d.entry i).node.design.clock with
      | some clock => if clock.uniform = name then (d.entry i).uniformName clock else word
      | none => word
    | .ambient => word := rfl

theorem generated_variableOf {j : Nat} (hj : j < d.entries.length) {o : String} {spec : Output}
    (hspec : (d.design j).outputs.get? o = some spec) :
    d.Generated ((ofDiagram d).variableOf stage j o) := by
  have hkey := Table.mem_keys_of_get? hspec
  unfold variableOf
  split_ifs
  · exact ⟨j, hj, .varying o, .varying hkey, rfl⟩
  · exact ⟨j, hj, .output o, .output hkey, rfl⟩

include hnames in
theorem spelled_widen {name : String} (h : d.Generated name) (source target : Kind) :
    Simple (widen name source target).toList ∧ Holds name (tokens (widen name source target)) :=
  ⟨(h.readable source target).simple hnames, tokens_widen (hnames name h) source target⟩

include hnames in
theorem spelled_generated {name : String} (h : d.Generated name) :
    Simple name.toList ∧ Holds name (tokens name) :=
  ⟨.name (hnames name h), .inl (tokens_name (hnames name h))⟩

section Node

variable {i : Nat} (hi : i < d.entries.length) {wires : List Wire}
variable (hw : (d.entry i).node.inputs.entries.mapM
  (fun input => (ofDiagram d).wire stage (d.entry i) input.1 input.2) = .ok wires)
include hi hd hp hnames

/-- What is read in place of an input is one name, in brackets or not. -/
theorem spelled_wire {name : String} {port : Port Nat}
    (hm : (name, port) ∈ (d.entry i).node.inputs.entries) {w : Wire}
    (h : (ofDiagram d).wire stage (d.entry i) name port = .ok w) {x : String}
    (hx : x = match port.edge? with
      | some (producer, output) => (ofDiagram d).variableOf stage producer output
      | none => (d.entry i).inputName name) :
    Simple w.expr.toList ∧ Holds x (tokens w.expr) := by
  have hown : d.Generated ((d.entry i).inputName name) :=
    ⟨i, hi, .input name, .input (Table.mem_keys_of_mem hm), rfl⟩
  rcases he : port.edge? with _ | ⟨producer, output⟩ <;> rw [he] at hx <;> subst hx
  · have hexpr : w.expr = (d.entry i).inputName name := by
      simp only [wire] at h
      split at h
      · cases h
      · cases h
        rfl
      · cases h
        rfl
      · rename_i hs
        rw [(port.edge?_eq_some_iff _ _).2 hs] at he
        cases he
    rw [hexpr]
    exact spelled_generated hnames hown
  · obtain ⟨spec, hspec, hlt, -, href⟩ := hp.exists_reference hd hi hm he
    simp only [wire, (port.edge?_eq_some_iff _ _).1 he, href] at h
    cases h
    exact spelled_widen hnames (generated_variableOf hlt hspec) _ _

include hw

/-- The words of a node's code are replaced by what they stand for. -/
theorem holds_standsFor {word answer : String}
    (h : (d.entry i).rename stage wires word = .ok (some answer)) :
    Reference.ofWord word ≠ .ambient ∧ Simple answer.toList ∧
      Holds ((ofDiagram d).standsFor stage i word) (tokens answer) := by
  rw [standsFor_eq]
  unfold Entry.rename at h
  split at h
  · rename_i name hword
    split at h
    · rename_i w hf
      cases h
      obtain ⟨port, hm, hwire⟩ := exists_input_of_find hw hf
      simp only [hword, (Table.get?_eq_some_iff _ _ _).2 hm]
      exact ⟨by simp, spelled_wire hd hp hnames hi hm hwire rfl⟩
    · cases h
  · rename_i name hword
    split_ifs at h with hkey
    cases h
    simp only [hword, hkey, if_true]
    exact ⟨by simp, spelled_generated hnames
      ⟨i, hi, .output name, .output ((Table.contains_eq_true_iff _ _).1 hkey), rfl⟩⟩
  · rename_i name hword
    rcases hclock : (d.entry i).node.design.clock with _ | clock <;> simp only [hclock] at h
    · cases h
    · split_ifs at h with hu
      · cases h
        simp only [hword, hu, if_true]
        exact ⟨by simp, spelled_generated hnames
          ⟨i, hi, .uniform clock.uniform, .uniform hclock, rfl⟩⟩
      · cases h
  · cases h

omit hd hp hnames hi in
theorem standsFor_eq_self {word : String}
    (h : ∀ answer, (d.entry i).rename stage wires word ≠ .ok (some answer)) :
    (ofDiagram d).standsFor stage i word = word := by
  rw [standsFor_eq]
  unfold Entry.rename at h
  rcases hr : Reference.ofWord word with name | name | name | _ <;> simp only [hr] at h ⊢
  · split
    · rename_i port hport
      obtain ⟨w, -, hf⟩ := find?_wire hw ((Table.get?_eq_some_iff _ _ _).1 hport)
      rw [hf] at h
      exact absurd rfl (h w.expr)
    · rfl
  · split_ifs with hkey
    · exact absurd (if_pos hkey) (h _)
    · rfl
  · split
    · rename_i clock hclock
      simp only [hclock] at h
      split_ifs with hu
      · exact absurd (congrArg Except.ok (if_pos hu)) (h _)
      · rfl
    · rfl

theorem assigned_of_code {code text : String}
    (h : replaceWords ((d.entry i).rename stage wires) code = .ok text) :
    assigned text = (assigned code).map ((ofDiagram d).standsFor stage i) :=
  assigned_replaceWords (fun _ _ ha => holds_standsFor hd hp hnames hi hw ha)
    (fun _ ha => standsFor_eq_self hw ha) h

end Node

/-- Where the names come from that texts in the block of a node assign. -/
def Originates (d : Diagram) (stage : Stage) (i : Nat) (name : String) : Prop :=
  (∃ text ∈ (d.entry i).node.textsIn stage, name ∈ assigned text) ∨
    ∃ code ∈ (d.design i).codeIn stage, ∃ word ∈ assigned code,
      name = (ofDiagram d).standsFor stage i word

theorem equals_notMem_literal (v : Value) (kind : Kind) :
    '=' ∉ (widen v.toGlsl v.kind kind).toList := by
  have hliteral : ∀ c ∈ v.toGlsl.toList, c ≠ '=' := by
    rintro c hc rfl
    exact absurd (v.isLiteralChar_of_mem_toGlsl _ hc) (by decide)
  have htype : '=' ∉ kind.type.toList := by cases kind <;> decide
  unfold widen
  split_ifs
  · simpa [htype] using fun h => hliteral '=' h rfl
  · exact fun h => hliteral '=' h rfl

section Block

variable {i : Nat} {wires : List Wire} {name : String}
variable (hw : (d.entry i).node.inputs.entries.mapM
  (fun input => (ofDiagram d).wire stage (d.entry i) input.1 input.2) = .ok wires)
include hw

theorem originates_of_wires {st : Statement} (hst : st ∈ wires.flatMap Wire.statements)
    {text : String} (htext : text ∈ st.texts) (hname : name ∈ assigned text) :
    Originates d stage i name := by
  obtain ⟨w, hmem, hst⟩ := List.mem_flatMap.1 hst
  obtain ⟨⟨key, port⟩, hm, h⟩ := exists_of_mem_mapM hw hmem
  simp only [wire] at h
  split at h
  · cases h
  · cases h
    obtain rfl := List.mem_singleton.1 hst
    obtain rfl := List.mem_singleton.1 htext
    rw [assigned_of_notMem (equals_notMem_literal _ _)] at hname
    cases hname
  · rename_i expr hs
    cases h
    obtain rfl := List.mem_singleton.1 hst
    obtain rfl := List.mem_singleton.1 htext
    have hvalue : port ∈ (d.entry i).node.inputs.values := List.mem_map.2 ⟨_, hm, rfl⟩
    refine .inl ⟨_, List.mem_append_left _ (List.mem_filterMap.2 ⟨port, hvalue, ?_⟩), hname⟩
    rw [hs]
  · obtain ⟨expr, -, h⟩ := (bind_eq_ok_iff _ _ _).1 h
    cases h
    cases hst

variable (hi : i < d.entries.length)
include hd hp hnames hi

theorem originates_of_outputs {outputs : List Statement}
    (ho : (d.entry i).node.design.outputs.entries.mapM
      (fun output => (d.entry i).declaration stage wires output.1 output.2) = .ok outputs)
    {st : Statement} (hst : st ∈ outputs) {text : String} (htext : text ∈ st.texts)
    (hname : name ∈ assigned text) : Originates d stage i name := by
  obtain ⟨⟨key, kind, expr⟩, hm, h⟩ := exists_of_mem_mapM ho hst
  simp only [Entry.declaration] at h
  rcases expr with _ | code
  · cases h
    obtain rfl := List.mem_singleton.1 htext
    have hzero : '=' ∉ kind.zero.toList := by cases kind <;> decide
    rw [assigned_of_notMem hzero] at hname
    cases hname
  · obtain ⟨init, hinit, h⟩ := (bind_eq_ok_iff _ _ _).1 h
    cases h
    obtain rfl := List.mem_singleton.1 htext
    rw [assigned_of_code hd hp hnames hi hw hinit] at hname
    obtain ⟨word, hword, rfl⟩ := List.mem_map.1 hname
    have hvalue : ⟨kind, some code⟩ ∈ (d.design i).outputs.values :=
      List.mem_map.2 ⟨_, hm, rfl⟩
    exact .inr ⟨code, List.mem_append_left _ (List.mem_filterMap.2 ⟨_, hvalue, rfl⟩), word, hword,
      rfl⟩

theorem originates_of_scope {scope : List Statement}
    (hs : (d.entry i).scope stage wires = .ok scope) {st : Statement} (hst : st ∈ scope)
    {text : String} (htext : text ∈ st.texts) (hname : name ∈ assigned text) :
    Originates d stage i name := by
  simp only [Entry.scope] at hs
  split at hs
  · rename_i code hcode
    obtain ⟨body, hbody, hs⟩ := (bind_eq_ok_iff _ _ _).1 hs
    cases hs
    obtain rfl := List.mem_singleton.1 hst
    obtain rfl := List.mem_singleton.1 htext
    rw [assigned_of_code hd hp hnames hi hw hbody] at hname
    obtain ⟨word, hword, rfl⟩ := List.mem_map.1 hname
    refine .inr ⟨code, List.mem_append_right _ ?_, word, hword, rfl⟩
    change code ∈ ((d.entry i).node.design.code stage).body.toList
    rw [hcode]
    exact List.mem_singleton_self code
  · cases hs
    cases hst

omit hw in
theorem assigned_handOver {st : Statement} (hst : st ∈ (ofDiagram d).handOver stage i)
    {text : String} (htext : text ∈ st.texts) : assigned text = [] := by
  cases stage with
  | fragment => cases hst
  | vertex =>
    obtain ⟨o, ho, rfl⟩ := List.mem_map.1 hst
    obtain rfl := List.mem_singleton.1 htext
    obtain ⟨⟨spec, hspec⟩, -⟩ := of_mem_varyings hd hp hi ho
    have hname := hnames _ ⟨i, hi, .output o, .output (Table.mem_keys_of_get? hspec), rfl⟩
    exact assigned_of_notMem fun hm => absurd (hname.isWordChar hm) (by decide)

omit hw in
theorem originates_of_block {block : List Statement}
    (hblock : (ofDiagram d).emitNode stage i = .ok block) {st : Statement} (hst : st ∈ block)
    {text : String} (htext : text ∈ st.texts) (hname : name ∈ assigned text) :
    Originates d stage i name := by
  obtain ⟨wires, outputs, scope, hw, ho, hs, rfl⟩ := (emitNode_eq_ok_iff stage i block).1 hblock
  simp only [List.mem_cons, List.mem_append] at hst
  rcases hst with rfl | ((hst | hst) | hst) | hst
  · cases htext
  · exact originates_of_wires hw hst htext hname
  · exact originates_of_outputs hd hp hnames hw hi ho hst htext hname
  · exact originates_of_scope hd hp hnames hw hi hs hst htext hname
  · rw [assigned_handOver hd hp hnames hi hst htext] at hname
    cases hname

omit hw hp hnames in
/-- A word stands for a name of another node if that is what an edge leads to, or by itself. -/
theorem standsFor_foreign {word : String} (h : d.Foreign i ((ofDiagram d).standsFor stage i word)) :
    (ofDiagram d).standsFor stage i word = word ∨ ∃ input producer output,
      (d.entry i).node.Edge input producer output ∧ word = "in_" ++ input ∧
        (ofDiagram d).standsFor stage i word = (ofDiagram d).variableOf stage producer output := by
  have hown : ∀ l, ¬ d.Foreign i ((d.entry i).label l) := by
    rintro l ⟨j, hj, hne, l', -, he⟩
    exact hne (hd.label_inj hi hj he).1.symm
  rw [standsFor_eq] at h ⊢
  rcases hr : Reference.ofWord word with input | output | uniform | _ <;> simp only [hr] at h ⊢
  · rcases hport : (d.entry i).node.inputs.get? input with _ | port <;> simp only [hport] at h ⊢
    · exact .inl trivial
    · rcases he : port.edge? with _ | ⟨producer, output⟩ <;> simp only [he] at h ⊢
      · exact absurd h (hown (.input input))
      · have hm := (Table.get?_eq_some_iff _ _ _).1 hport
        exact .inr ⟨input, producer, output, ⟨port, hm, he⟩,
          (Reference.ofWord_eq_input_iff _ _).1 hr, rfl⟩
  · split_ifs at h ⊢
    · exact absurd h (hown (.output output))
    · exact .inl rfl
  · rcases hclock : (d.entry i).node.design.clock with _ | clock <;> simp only [hclock] at h ⊢
    · exact .inl trivial
    · split_ifs at h ⊢
      · exact absurd h (hown (.uniform clock.uniform))
      · exact .inl rfl
  · exact .inl trivial

omit hw in
/-- The block of a node assigns a name of another one only through an input with an edge, or because
the node's texts spell the name. -/
theorem assigns_foreign {block : List Statement}
    (hblock : (ofDiagram d).emitNode stage i = .ok block) (hassigns : Assigns block name)
    (hforeign : d.Foreign i name) : (ofDiagram d).AssignsThrough stage i name ∨
      ∃ text ∈ (d.entry i).node.textsIn stage, name ∈ assigned text := by
  rcases hassigns with htarget | ⟨st, hst, text, htext, hname⟩
  · rw [targets_block hblock] at htarget
    obtain ⟨l, -, rfl⟩ := List.mem_map.1 htarget
    obtain ⟨j, hj, hne, l', -, he⟩ := hforeign
    exact absurd (hd.label_inj hi hj he).1.symm hne
  · rcases originates_of_block hd hp hnames hi hblock hst htext hname with
      hspelled | ⟨code, hcode, word, hword, rfl⟩
    · exact .inr hspelled
    · rcases standsFor_foreign hd hi hforeign with hself | ⟨input, producer, output, he, rfl, hs⟩
      · rw [hself]
        exact .inr ⟨code, List.mem_append_right _ hcode, hword⟩
      · exact .inl ⟨code, hcode, input, producer, output, he, hword, hs⟩

end Block

end Stages

/-- A node assigns no input with an edge and spells no name of another node. -/
structure KeepsToItself (p : Plan) (stage : Stage) (i : Nat) : Prop where
  inputs : ∀ code ∈ (p.diagram.design i).codeIn stage, ∀ input producer output,
    (p.diagram.entry i).node.Edge input producer output → "in_" ++ input ∉ assigned code
  names : ∀ text ∈ (p.diagram.entry i).node.textsIn stage, ∀ name ∈ assigned text,
    ¬ p.diagram.Foreign i name

end Plan

/-- The block of a node assigns a name that is generated for another node only through an input with
an edge, or because the node's texts spell that name; so a node that does neither changes nothing
that belongs to another one. -/
theorem Store.blocks_assign_own {s : Store} {root : NodeId} {shader : Shader}
    (hc : s.compile root = .ok shader)
    (hnames : ∀ n, s.Reaches root n → ∀ name ∈ (s.get n).toNode.names, ∀ c ∈ name.toList,
      isWordChar c = true) :
    ∃ w, Walk.discover s root = .ok w ∧ ∀ stage,
      ∀ i ∈ (Plan.ofDiagram w.diagram).stageOrder stage, ∃ earlier block later,
        (shader.stage stage).statements = earlier ++ block ++ later ∧
        (Plan.ofDiagram w.diagram).emitNode stage i = .ok block ∧
        (∀ name, w.diagram.Foreign i name → Assigns block name →
          (Plan.ofDiagram w.diagram).AssignsThrough stage i name ∨
            ∃ text ∈ (w.diagram.entry i).node.textsIn stage, name ∈ assigned text) ∧
        ((Plan.ofDiagram w.diagram).KeepsToItself stage i →
          ∀ name, w.diagram.Foreign i name → ¬ Assigns block name) := by
  obtain ⟨-, w, hdisc, hplan⟩ := (s.compile_eq_ok_iff root shader).1 hc
  have hw := Walk.discover_ok hdisc
  have hd := hw.wellFormed
  have hp := Plan.portsFit_of_compile hplan
  have hgen := hw.isName_generated fun n hn => hnames n ((hw.mem_ids n).1 hn)
  refine ⟨w, hdisc, fun stage i hi => ?_⟩
  obtain ⟨before, after, ho⟩ := List.append_of_mem hi
  obtain ⟨blocks, block, later, -, hblock, hst⟩ :=
    Plan.emit_split (Plan.emit_of_compile hplan stage) ho
  have hcause := fun name (hforeign : w.diagram.Foreign i name) hassigns =>
    Plan.assigns_foreign hd hp hgen (Plan.lt_of_mem_stageOrder hd hi) hblock hassigns hforeign
  refine ⟨_, block, later, hst, hblock, hcause, fun hkeeps name hforeign hassigns => ?_⟩
  rcases hcause name hforeign hassigns with
    ⟨code, hcode, input, producer, output, he, hm, -⟩ | ⟨text, htext, hm⟩
  · exact hkeeps.inputs code hcode input producer output he hm
  · exact hkeeps.names text htext name hm hforeign

section Faded

/-- A number that is doubled in place, and a material that also reads the tone beside it. -/
def faded (source : Source NodeId) : Store :=
  let tone := Node.named "Tone" |>.output "value" .float "0.5"
  let fade := Node.named "Fade"
    |>.input "a" ((Port.ofKind .float).wired source)
    |>.bodyOutput "value" .float
    |>.body .fragment "in_a *= 2.0; out_value = in_a;"
  let material := Node.named "Surface"
    |>.slot "faded" ((Port.ofKind .float).wired (.edge ⟨1⟩ "value")) (.plain .fragment "faded")
    |>.slot "tone" ((Port.ofKind .float).wired (.edge ⟨0⟩ "value")) (.plain .fragment "tone")
  ⟨#[⟨tone, none⟩, ⟨fade, none⟩, ⟨material, none⟩]⟩

theorem faded_names (n : NodeId) : ∀ name ∈ ((faded (.raw "0.25")).get n).toNode.names,
    ∀ c ∈ name.toList, isWordChar c = true := by
  have h : ((faded (.raw "0.25")).get n).toNode.names.all (·.toList.all isWordChar) = true := by
    rcases n with ⟨_ | _ | _ | n⟩ <;> rfl
  simpa only [List.all_eq_true] using h

theorem Diagram.Foreign.startsGenerated {d : Diagram} (hd : d.WellFormed) {i : Nat}
    {name : String} (h : d.Foreign i name) : Glsl.startsGenerated name.toList = true := by
  obtain ⟨j, hj, -, l, -, rfl⟩ := h
  exact startsGenerated_label (hd.ident_eq j hj) l

/-- A node may assign an input of its own. -/
theorem blocks_assign_own_faded : ∃ shader w earlier block later,
    (faded (.raw "0.25")).compile ⟨2⟩ = .ok shader ∧
    Walk.discover (faded (.raw "0.25")) ⟨2⟩ = .ok w ∧
    1 ∈ (Plan.ofDiagram w.diagram).stageOrder .fragment ∧
    shader.fragment.statements = earlier ++ block ++ later ∧
    (Plan.ofDiagram w.diagram).emitNode .fragment 1 = .ok block ∧
    (Plan.ofDiagram w.diagram).KeepsToItself .fragment 1 ∧
    ∀ name, w.diagram.Foreign 1 name → ¬ Assigns block name := by
  have hok : ((faded (.raw "0.25")).compile ⟨2⟩).toBool = true := by decide +kernel
  obtain ⟨shader, hc⟩ := exists_of_toBool hok
  obtain ⟨w, hdisc, hblocks⟩ := Store.blocks_assign_own hc fun n _ => faded_names n
  have hd := (Walk.discover_ok hdisc).wellFormed
  have hfacts : (Walk.discover (faded (.raw "0.25")) ⟨2⟩).toOption.map (fun w =>
      ((Plan.ofDiagram w.diagram).stageOrder .fragment,
        (w.diagram.entry 1).node.inputs.entries.map fun input => input.2.edge?,
        ((w.diagram.entry 1).node.textsIn .fragment).flatMap assigned)) =
      some ([1, 2], [none], ["in_a", "out_value"]) := by decide +kernel
  rw [hdisc] at hfacts
  obtain ⟨horder, hrest⟩ := Prod.mk.inj (Option.some.inj hfacts)
  obtain ⟨hedges, htexts⟩ := Prod.mk.inj hrest
  have hmem : 1 ∈ (Plan.ofDiagram w.diagram).stageOrder .fragment := by
    rw [horder]
    decide
  have hkeeps : (Plan.ofDiagram w.diagram).KeepsToItself .fragment 1 := by
    refine ⟨fun code _ input producer output ⟨port, hm, he⟩ => ?_, fun text htext name hm hf => ?_⟩
    · have hnone : port.edge? ∈ [none] := hedges ▸ List.mem_map.2 ⟨_, hm, rfl⟩
      rw [he] at hnone
      simp at hnone
    · have hname : name ∈ ["in_a", "out_value"] := htexts ▸ List.mem_flatMap.2 ⟨text, htext, hm⟩
      have hstart := hf.startsGenerated hd
      simp only [List.mem_cons, List.not_mem_nil, or_false] at hname
      rcases hname with rfl | rfl <;> revert hstart <;> decide
  obtain ⟨earlier, block, later, hst, hblock, -, hown⟩ := hblocks .fragment 1 hmem
  exact ⟨shader, w, earlier, block, later, hc, hdisc, hmem, hst, hblock, hkeeps, hown hkeeps⟩

/-- A node that assigns an input with an edge assigns the variable of the producer, which others
read behind it. -/
theorem shared_variable_assigned : ∃ shader w block,
    (faded (.edge ⟨0⟩ "value")).compile ⟨2⟩ = .ok shader ∧
    Walk.discover (faded (.edge ⟨0⟩ "value")) ⟨2⟩ = .ok w ∧
    1 ∈ (Plan.ofDiagram w.diagram).stageOrder .fragment ∧
    (Plan.ofDiagram w.diagram).emitNode .fragment 1 = .ok block ∧
    w.diagram.Foreign 1 "Tone_2_out_value" ∧ Assigns block "Tone_2_out_value" ∧
    .assign "tone" "Tone_2_out_value" ∈ shader.fragment.statements := by
  have hok : ((faded (.edge ⟨0⟩ "value")).compile ⟨2⟩).toBool = true := by decide +kernel
  obtain ⟨shader, hc⟩ := exists_of_toBool hok
  obtain ⟨-, w, hdisc, -⟩ := (Store.compile_eq_ok_iff _ _ shader).1 hc
  have hfacts : (Walk.discover (faded (.edge ⟨0⟩ "value")) ⟨2⟩).toOption.map (fun w =>
      ((Plan.ofDiagram w.diagram).stageOrder .fragment, w.diagram.entries.length,
        (w.diagram.entry 2).node.design.outputs.keys, (w.diagram.entry 2).outputName "value")) =
      some ([2, 1], 3, ["value"], "Tone_2_out_value") := by decide +kernel
  have hblock : (Walk.discover (faded (.edge ⟨0⟩ "value")) ⟨2⟩).toOption.bind (fun w =>
      ((Plan.ofDiagram w.diagram).emitNode .fragment 1).toOption) =
      some [.comment "Fade (Fade_1)", .declare "float" "Fade_1_out_value" "0.0",
        .block "Tone_2_out_value *= 2.0; Fade_1_out_value = Tone_2_out_value;"] := by
    decide +kernel
  have hslots : ((faded (.edge ⟨0⟩ "value")).compile ⟨2⟩).toOption.map (fun shader =>
      decide (.assign "tone" "Tone_2_out_value" ∈ shader.fragment.statements)) = some true := by
    decide +kernel
  rw [hdisc] at hfacts hblock
  rw [hc] at hslots
  obtain ⟨horder, hrest⟩ := Prod.mk.inj (Option.some.inj hfacts)
  obtain ⟨hlength, hrest⟩ := Prod.mk.inj hrest
  obtain ⟨hkeys, hname⟩ := Prod.mk.inj hrest
  rcases hemit : (Plan.ofDiagram w.diagram).emitNode .fragment 1 with e | block
  · rw [Except.toOption, Option.bind_some, hemit] at hblock
    cases hblock
  · rw [Except.toOption, Option.bind_some, hemit] at hblock
    obtain rfl := Option.some.inj hblock
    have hforeign : w.diagram.Foreign 1 "Tone_2_out_value" := by
      refine ⟨2, ?_, by decide, .output "value", .output ?_, hname.symm⟩
      · rw [hlength]
        decide
      · rw [hkeys]
        decide
    have hassigned : "Tone_2_out_value" ∈
        assigned "Tone_2_out_value *= 2.0; Fade_1_out_value = Tone_2_out_value;" := by
      decide +kernel
    refine ⟨shader, w, _, hc, hdisc, ?_, hemit, hforeign,
      .inr ⟨.block _, ?_, _, List.mem_singleton_self _, hassigned⟩, ?_⟩
    · rw [horder]
      decide
    · decide
    · exact of_decide_eq_true (Option.some.inj hslots)

end Faded

end ShaderGraph
