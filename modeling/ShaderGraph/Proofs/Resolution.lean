import ShaderGraph.Proofs.Emission
import ShaderGraph.Proofs.Expansion
import ShaderGraph.Proofs.Indentation
import ShaderGraph.Proofs.Replacement

/-!
# No port names are left

In the code of a node the words for its inputs and outputs are replaced by generated names, some of
them in brackets behind a type. The words of the result are those of the answers and the ones that
were kept (`words_replaceWords`), and neither refers to a port. So the initializers and bodies of a
shader have no such words any more, and what stood in their places are texts for the node's own
inputs and outputs (`Store.port_names_resolved`).
-/

namespace ShaderGraph

open Glsl

namespace Glsl

/-! ## Words of replaced text -/

theorem isName_of_mem_scan {name : List Char} (before : Option Char) (cs : List Char)
    (h : .word name ∈ scan before cs) : IsName name := by
  fun_induction scan before cs with
  | case1 => cases h
  | case2 before rest ih => exact ih (by simpa using h)
  | case3 before rest ih => exact ih (by simpa using h)
  | case4 before c rest _ _ _ number ih => exact ih (by simpa using h)
  | case5 before c rest _ _ _ hw word ih =>
    rcases List.mem_cons.1 h with he | h
    · split_ifs at he
      rw [Piece.word.inj he]
      exact ⟨c, _, rfl, hw, fun _ hc => List.mem_takeWhile_imp hc⟩
    · exact ih h
  | case6 before c rest _ _ _ _ ih => exact ih (by simpa using h)

theorem isName_of_mem_words {code word : String} (h : word ∈ words code) : IsName word.toList :=
  isName_of_mem_scan none code.toList ((mem_words code word).1 h)

/-- A name that may be widened is the last word of the result. -/
theorem words_widen {name : String} (h : IsName name.toList) (source target : Kind) :
    words (widen name source target) = [name] ∨
      words (widen name source target) = [target.type, name] := by
  unfold widen
  split_ifs
  · refine .inr ?_
    have htext : (target.type ++ "(" ++ name ++ ")").toList =
        target.type.toList ++ '(' :: (name.toList ++ ')' :: []) := by
      simp
    rw [words_eq_flatMap, htext, scan_brackets target.isName_type h.slash_notMem,
      if_neg (by simp), scan_of_isName h]
    simp [scan, Piece.names]
  · exact .inl (words_of_isName h)

section Replace

variable {ε : Type} {rename : String → Except ε (Option String)} {code text : String}

/-- The words in the place of a word. -/
def wordsFor (rename : String → Except ε (Option String)) (word : String) : List String :=
  match rename word with
  | .ok (some answer) => words answer
  | _ => [word]

/-- The words of a replaced text are the words of the answers, and those without an answer. -/
theorem words_replaceWords (hanswer : ∀ word answer, IsName word.toList →
      rename word = .ok (some answer) →
        (∃ c rest, word.toList = c :: rest ∧ c.isAlpha = true) ∧ Simple answer.toList)
    (h : replaceWords rename code = .ok text) :
    words text = (words code).flatMap (wordsFor rename) := by
  classical
  -- only names are asked about, so nothing needs to be known about answers to anything else
  let f : List Char → Option (List Char) := fun name =>
    if IsName name then answers rename name else none
  have hf : ∀ name text, f name = some text →
      (∃ c rest, name = c :: rest ∧ c.isAlpha = true) ∧ Simple text := by
    intro name text hr
    simp only [f] at hr
    split_ifs at hr with hname
    obtain ⟨answer, hrename, rfl⟩ := exists_of_answers hr
    obtain ⟨⟨c, rest, hcons, hc⟩, hsimple⟩ :=
      hanswer _ _ (by rwa [String.toList_ofList]) hrename
    exact ⟨⟨c, rest, by simpa using hcons, hc⟩, hsimple⟩
  have htext : text.toList = (scan none code.toList).flatMap (Piece.fill f) := by
    rw [toList_replaceWords h]
    refine List.flatMap_congr fun piece hpiece => ?_
    cases piece with
    | other => rfl
    | word name => simp only [Piece.fill, f, if_pos (isName_of_mem_scan _ _ hpiece)]
  rw [words_eq_flatMap, htext, scan_fill hf (fun _ _ _ => rfl) none _ none (.same none),
    words_eq_flatMap, List.flatMap_assoc]
  refine List.flatMap_congr fun piece hpiece => ?_
  cases piece with
  | other => rfl
  | word name =>
    simp only [Piece.expand, f, if_pos (isName_of_mem_scan _ _ hpiece), Piece.names,
      List.flatMap_singleton, wordsFor, answers]
    rcases rename (String.ofList name) with e | _ | answer
    · rfl
    · rfl
    · exact (words_eq_flatMap answer).symm

end Replace

/-- No word of a text refers to a port. -/
def PortFree (text : String) : Prop :=
  ∀ word ∈ words text, ∀ name, word ≠ "in_" ++ name ∧ word ≠ "out_" ++ name

theorem eq_of_ofWord_uniform {word name : String} (h : Reference.ofWord word = .uniform name) :
    word = "u_" ++ name := by
  rw [eq_append_iff_toList]
  unfold Reference.ofWord at h
  split at h
  · cases h
  · cases h
  · rename_i rest hword
    cases h
    simp [hword]
  · cases h

theorem type_ne_port (kind : Kind) (name : String) :
    kind.type ≠ "in_" ++ name ∧ kind.type ≠ "out_" ++ name := by
  rw [ne_eq, ne_eq, ← Reference.ofWord_eq_input_iff, ← Reference.ofWord_eq_output_iff]
  cases kind <;> exact ⟨nofun, nofun⟩

theorem words_zero (kind : Kind) : words kind.zero ⊆ [kind.type] := by
  cases kind <;> decide +kernel

theorem portFree_zero (kind : Kind) : PortFree kind.zero :=
  fun _ hword => List.mem_singleton.1 (words_zero kind hword) ▸ type_ne_port kind

theorem ne_port_of_startsGenerated {name : String} (h : startsGenerated name.toList = true)
    (port : String) : name ≠ "in_" ++ port ∧ name ≠ "out_" ++ port := by
  refine ⟨?_, ?_⟩ <;> rintro rfl <;> rw [String.toList_append] at h <;> cases h

end Glsl

/-! ## Answers of a node -/

/-- The names of the ports and the outputs of a node. -/
def Node.portNames {ρ : Type} (n : Node ρ) : List String := n.inputs.keys ++ n.design.outputs.keys

namespace Plan

/-- What an input is read by in a stage: its own variable, or the producer's, which may be
widened. -/
inductive InputText (p : Plan) (stage : Stage) (i : Nat) (name : String) : String → Prop
  | own {port : Port Nat} (hm : (name, port) ∈ (p.diagram.entry i).node.inputs.entries)
    (hedge : port.edge? = none) : InputText p stage i name ((p.diagram.entry i).inputName name)
  | read {port : Port Nat} {producer : Nat} {output : String} {spec : Output}
    (hm : (name, port) ∈ (p.diagram.entry i).node.inputs.entries)
    (hedge : port.edge? = some (producer, output))
    (hspec : (p.diagram.design producer).outputs.get? output = some spec) :
    InputText p stage i name (widen (p.variableOf stage producer output) spec.kind port.kind)

/-- A text is code of a node in which every word for an input or an output is replaced by the text
for the node's own one of that name. -/
def Resolves (p : Plan) (stage : Stage) (i : Nat) (code text : String) : Prop :=
  ∃ answers : List (String × Option String), answers.map Prod.fst = words code ∧
    Replaced [] answers code.toList text.toList ∧
    ∀ word answer, (word, answer) ∈ answers →
      (∀ name, word = "in_" ++ name → ∃ own, answer = some own ∧ p.InputText stage i name own) ∧
      ∀ name, word = "out_" ++ name → name ∈ (p.diagram.design i).outputs.keys ∧
        answer = some ((p.diagram.entry i).outputName name)

section Stages

variable {d : Diagram} {stage : Stage} (hd : d.WellFormed) (hp : (ofDiagram d).PortsFit)
variable (hnames : ∀ i < d.entries.length, ∀ name ∈ (d.entry i).node.portNames,
  ∀ c ∈ name.toList, isWordChar c = true)
variable {i : Nat} (hi : i < d.entries.length)

include hd hi in
/-- A generated name, widened or not, is simple and refers to no port, if what the name is made for
is spelled like a word. -/
theorem portFree_label (l : Label) (hl : ∀ c ∈ l.text.toList, isWordChar c = true)
    (source target : Kind) : Simple (widen ((d.entry i).label l) source target).toList ∧
      PortFree (widen ((d.entry i).label l) source target) := by
  have hname : IsName ((d.entry i).label l).toList := isName_label (hd.ident_eq i hi) hl
  have hfree : ∀ port, (d.entry i).label l ≠ "in_" ++ port ∧ (d.entry i).label l ≠ "out_" ++ port :=
    ne_port_of_startsGenerated (startsGenerated_label (hd.ident_eq i hi) l)
  refine ⟨?_, ?_⟩
  · unfold widen
    split_ifs
    · simpa using Simple.call target.isName_type hname
    · exact .name hname
  · unfold PortFree
    rcases words_widen hname source target with hwords | hwords <;> rw [hwords]
    · exact List.forall_mem_singleton.2 hfree
    · exact List.forall_mem_cons.2 ⟨type_ne_port target, List.forall_mem_singleton.2 hfree⟩

include hd hi in
theorem portFree_own (l : Label) (hl : ∀ c ∈ l.text.toList, isWordChar c = true) :
    Simple ((d.entry i).label l).toList ∧ PortFree ((d.entry i).label l) := by
  have h := portFree_label hd hi l hl .float .float
  rwa [widen, if_neg (by simp)] at h

include hd hnames hi

theorem portFree_inputText {name own : String}
    (h : (ofDiagram d).InputText stage i name own) : Simple own.toList ∧ PortFree own := by
  cases h with
  | own hm =>
    exact portFree_own hd hi (.input name)
      (hnames i hi name (List.mem_append_left _ (Table.mem_keys_of_mem hm)))
  | @read port producer output spec hm hedge hspec =>
    have hj : producer < d.entries.length := hd.edge_lt hi ⟨port, hm, hedge⟩
    have hl := hnames producer hj output
      (List.mem_append_right _ (Table.mem_keys_of_get? hspec))
    unfold variableOf
    split_ifs
    · exact portFree_label hd hj (.varying output) hl _ _
    · exact portFree_label hd hj (.output output) hl _ _

variable {wires : List Wire}
variable (hw : (d.entry i).node.inputs.entries.mapM
  (fun input => (ofDiagram d).wire stage (d.entry i) input.1 input.2) = .ok wires)

omit hnames in
include hp in
theorem inputText_of_wire {name : String} {port : Port Nat} {w : Wire}
    (hm : (name, port) ∈ (d.entry i).node.inputs.entries)
    (h : (ofDiagram d).wire stage (d.entry i) name port = .ok w) :
    (ofDiagram d).InputText stage i name w.expr := by
  rcases hedge : port.edge? with _ | ⟨producer, output⟩
  · have hexpr : w.expr = (d.entry i).inputName name := by
      unfold wire at h
      dsimp only at h
      split at h
      · cases h
      · cases h
        rfl
      · cases h
        rfl
      · rename_i hs
        rw [(port.edge?_eq_some_iff _ _).2 hs] at hedge
        cases hedge
    rw [hexpr]
    exact .own hm hedge
  · obtain ⟨spec, hspec, -, -, href⟩ := hp.exists_reference hd hi hm hedge
    simp only [wire, (port.edge?_eq_some_iff _ _).1 hedge, href] at h
    cases h
    exact .read hm hedge hspec

omit hnames in
include hp hw in
/-- The word for an input is answered by what the input is read by. -/
theorem inputText_of_rename {name : String} {answer : Option String}
    (h : (d.entry i).rename stage wires ("in_" ++ name) = .ok answer) :
    ∃ own, answer = some own ∧ (ofDiagram d).InputText stage i name own := by
  unfold Entry.rename at h
  rw [(Reference.ofWord_eq_input_iff _ name).2 rfl] at h
  dsimp only at h
  split at h
  · rename_i w hf
    cases h
    obtain ⟨port, hm, hwire⟩ := exists_input_of_find hw hf
    exact ⟨w.expr, rfl, inputText_of_wire hd hp hi hm hwire⟩
  · cases h

omit hd hnames hi in
theorem output_of_rename {name : String} {answer : Option String}
    (h : (d.entry i).rename stage wires ("out_" ++ name) = .ok answer) :
    name ∈ (d.design i).outputs.keys ∧ answer = some ((d.entry i).outputName name) := by
  unfold Entry.rename at h
  rw [(Reference.ofWord_eq_output_iff _ name).2 rfl] at h
  dsimp only at h
  split_ifs at h with hkey
  cases h
  exact ⟨(Table.contains_eq_true_iff _ _).1 hkey, rfl⟩

include hp hw in
/-- Whatever stands in the place of a word is simple and refers to no port. -/
theorem portFree_of_rename {word answer : String} (hword : IsName word.toList)
    (h : (d.entry i).rename stage wires word = .ok (some answer)) :
    Reference.ofWord word ≠ .ambient ∧ Simple answer.toList ∧ PortFree answer := by
  rcases hr : Reference.ofWord word with name | name | name | _
  · obtain rfl := (Reference.ofWord_eq_input_iff _ _).1 hr
    obtain ⟨own, he, hown⟩ := inputText_of_rename hd hp hi hw h
    cases he
    exact ⟨nofun, portFree_inputText hd hnames hi hown⟩
  · obtain rfl := (Reference.ofWord_eq_output_iff _ _).1 hr
    obtain ⟨hkey, he⟩ := output_of_rename h
    cases he
    exact ⟨nofun, portFree_own hd hi (.output name)
      (hnames i hi name (List.mem_append_right _ hkey))⟩
  · obtain rfl := eq_of_ofWord_uniform hr
    have hchars : ∀ c ∈ name.toList, isWordChar c = true := fun c hc =>
      hword.isWordChar (by rw [String.toList_append]; exact List.mem_append_right _ hc)
    unfold Entry.rename at h
    rw [hr] at h
    dsimp only at h
    split at h
    · rename_i clock _
      split_ifs at h with hname
      · cases h
        rw [← hname] at hchars
        exact ⟨nofun, portFree_own hd hi (.uniform clock.uniform) hchars⟩
      · cases h
    · cases h
  · unfold Entry.rename at h
    rw [hr] at h
    cases h

include hp hw in
/-- The words of the replaced code are those of the answers and the ones that are kept. -/
theorem words_of_replaceWords {code text : String}
    (h : replaceWords ((d.entry i).rename stage wires) code = .ok text) :
    words text = (words code).flatMap (wordsFor ((d.entry i).rename stage wires)) := by
  refine words_replaceWords (fun word answer hname hrename => ?_) h
  obtain ⟨hambient, hsimple, -⟩ := portFree_of_rename hd hp hnames hi hw hname hrename
  obtain ⟨c, rest, hcons, hc, -⟩ := Reference.spelling hambient
  exact ⟨⟨c, rest, hcons, hc⟩, hsimple⟩

include hp hw in
/-- Code with its words replaced has no words for ports, and the node's own texts for them. -/
theorem resolves_of_replaceWords {code text : String}
    (h : replaceWords ((d.entry i).rename stage wires) code = .ok text) :
    PortFree text ∧ (ofDiagram d).Resolves stage i code text := by
  obtain ⟨answers, hwords, hanswers, hreplaced⟩ := exists_answers h
  refine ⟨?_, answers, hwords, hreplaced, fun word answer hm => ?_⟩
  · intro word hword
    rw [words_of_replaceWords hd hp hnames hi hw h, List.mem_flatMap] at hword
    obtain ⟨asked, hasked, hword⟩ := hword
    obtain ⟨⟨_, answer⟩, hm, rfl⟩ := List.mem_map.1 (hwords ▸ hasked)
    have hrename := hanswers _ hm
    dsimp only at hrename hword hasked
    rw [wordsFor, hrename] at hword
    rcases answer with _ | answer
    · -- a word is kept only if it is for no port
      obtain rfl := List.mem_singleton.1 hword
      intro name
      refine ⟨?_, ?_⟩ <;> rintro rfl
      · obtain ⟨_, hown, -⟩ := inputText_of_rename hd hp hi hw hrename
        cases hown
      · obtain ⟨-, hown⟩ := output_of_rename hrename
        cases hown
    · exact (portFree_of_rename hd hp hnames hi hw (isName_of_mem_words hasked)
        hrename).2.2 word hword
  · refine ⟨?_, ?_⟩ <;> rintro name rfl
    · exact inputText_of_rename hd hp hi hw (hanswers _ hm)
    · exact output_of_rename (hanswers _ hm)

end Stages

/-- The declaration of an output: code without words for ports, the output's own with its words
replaced if it has any. -/
def OutputResolved (p : Plan) (stage : Stage) (i : Nat) (output : String × Output)
    (st : Statement) : Prop :=
  ∃ init, st = .declare output.2.kind.type ((p.diagram.entry i).outputName output.1) init ∧
    PortFree init ∧ ∀ code, output.2.expr = some code → p.Resolves stage i code init

/-- The block of a body: its code with the words replaced and none left for a port, as it is
emitted and as it stands in a source. -/
def BodyResolved (p : Plan) (stage : Stage) (source : String) (i : Nat) (code : String)
    (st : Statement) : Prop :=
  ∃ text, st = .block text ∧ PortFree text ∧ p.Resolves stage i code text ∧
    PortFree (StageSource.blockText text) ∧
    ∃ front behind, source = front ++ StageSource.blockText text ++ behind

section Emission

variable {d : Diagram} {stage : Stage} (hd : d.WellFormed) (hp : (ofDiagram d).PortsFit)
variable (hnames : ∀ i < d.entries.length, ∀ name ∈ (d.entry i).node.portNames,
  ∀ c ∈ name.toList, isWordChar c = true)
variable {i : Nat} (hi : i < d.entries.length) {wires : List Wire}
variable (hw : (d.entry i).node.inputs.entries.mapM
  (fun input => (ofDiagram d).wire stage (d.entry i) input.1 input.2) = .ok wires)
include hd hp hnames hi hw

theorem outputResolved_of_declaration {output : String × Output} {st : Statement}
    (h : (d.entry i).declaration stage wires output.1 output.2 = .ok st) :
    (ofDiagram d).OutputResolved stage i output st := by
  obtain ⟨name, kind, _ | code⟩ := output
  · cases h
    exact ⟨_, rfl, portFree_zero kind, nofun⟩
  · obtain ⟨init, hinit, h⟩ := (bind_eq_ok_iff _ _ _).1 h
    cases h
    obtain ⟨hfree, hres⟩ := resolves_of_replaceWords hd hp hnames hi hw hinit
    refine ⟨init, rfl, hfree, fun code' hcode => ?_⟩
    cases hcode
    exact hres

theorem bodyResolved_of_scope {scope : List Statement} {source : StageSource}
    (h : (d.entry i).scope stage wires = .ok scope) (hsub : scope ⊆ source.statements) :
    List.Forall₂ ((ofDiagram d).BodyResolved stage source.render i)
      ((d.design i).code stage).body.toList scope := by
  have hdesign : d.design i = (d.entry i).node.design := rfl
  rw [hdesign]
  rw [Entry.scope] at h
  rcases hbody : ((d.entry i).node.design.code stage).body with _ | code <;> rw [hbody] at h
  · cases h
    exact .nil
  · obtain ⟨text, htext, h⟩ := (bind_eq_ok_iff _ _ _).1 h
    cases h
    obtain ⟨hfree, hres⟩ := resolves_of_replaceWords hd hp hnames hi hw htext
    refine .cons ⟨text, rfl, hfree, hres, ?_, ?_⟩ .nil
    · unfold PortFree
      rw [StageSource.words_blockText]
      exact hfree
    · exact StageSource.exists_blockText (hsub List.mem_cons_self)

end Emission

end Plan

theorem Walk.Explores.isWordChar_portNames {s : Store} {root : NodeId} {w : Walk}
    (hw : Walk.Explores s root w) (hnames : ∀ n, s.Reaches root n →
      ∀ name ∈ (s.get n).toNode.portNames, ∀ c ∈ name.toList, isWordChar c = true) :
    ∀ i < w.diagram.entries.length, ∀ name ∈ (w.diagram.entry i).node.portNames,
      ∀ c ∈ name.toList, isWordChar c = true := by
  intro i hi name hname
  obtain ⟨n, hn, rfl⟩ := hw.exists_idxOf hi
  refine hnames n ((hw.mem_ids n).1 hn) name ?_
  rw [hw.node_idxOf hn] at hname
  simpa only [Node.portNames, Node.map, Table.keys_map] using hname

/-- If ports and outputs have names of word characters, then no word for a port is left in the
initializers and the bodies that are emitted for a graph, and every word of a node's code that
stood for a port has become the text for the node's own port of that name. -/
theorem Store.port_names_resolved {s : Store} {root : NodeId} {shader : Shader}
    (hc : s.compile root = .ok shader)
    (hnames : ∀ n, s.Reaches root n → ∀ name ∈ (s.get n).toNode.portNames, ∀ c ∈ name.toList,
      isWordChar c = true) :
    ∃ w, Walk.discover s root = .ok w ∧ ∀ stage,
      ∀ i ∈ (Plan.ofDiagram w.diagram).stageOrder stage,
        ∃ earlier comment inputs outputs scope later,
          (shader.stage stage).statements = earlier ++ .comment comment ::
            (inputs ++ outputs ++ scope ++ (Plan.ofDiagram w.diagram).handOver stage i) ++ later ∧
          (Plan.ofDiagram w.diagram).emitNode stage i = .ok (.comment comment ::
            (inputs ++ outputs ++ scope ++ (Plan.ofDiagram w.diagram).handOver stage i)) ∧
          List.Forall₂ ((Plan.ofDiagram w.diagram).OutputResolved stage i)
            (w.diagram.design i).outputs.entries outputs ∧
          List.Forall₂ ((Plan.ofDiagram w.diagram).BodyResolved stage (shader.source stage) i)
            ((w.diagram.design i).code stage).body.toList scope := by
  obtain ⟨-, w, hdisc, hplan⟩ := (s.compile_eq_ok_iff root shader).1 hc
  have hw := Walk.discover_ok hdisc
  have hd := hw.wellFormed
  have hp := Plan.portsFit_of_compile hplan
  have hchars := hw.isWordChar_portNames hnames
  refine ⟨w, hdisc, fun stage i hi => ?_⟩
  have hlt := Plan.lt_of_mem_stageOrder hd hi
  obtain ⟨before, after, ho⟩ := List.append_of_mem hi
  obtain ⟨blocks, block, later, -, hblock, hst⟩ :=
    Plan.emit_split (Plan.emit_of_compile hplan stage) ho
  obtain ⟨wires, outputs, scope, hwires, hout, hscope, rfl⟩ :=
    (Plan.emitNode_eq_ok_iff stage i block).1 hblock
  refine ⟨_, _, _, outputs, scope, later, hst, hblock, ?_, ?_⟩
  · exact ((mapM_eq_ok_iff _ _ _).1 hout).imp fun _ _ h =>
      Plan.outputResolved_of_declaration hd hp hchars hlt hwires h
  · have hsub : scope ⊆ (shader.stage stage).statements := by
      intro st hm
      rw [hst]
      simp [hm]
    have hbody := Plan.bodyResolved_of_scope hd hp hchars hlt hwires hscope hsub
    have hsource : (shader.stage stage).render = shader.source stage := by
      cases stage <;> rfl
    rwa [hsource] at hbody

section Tinted

/-- A number is widened to a colour, which is changed in place. -/
def tinted : Store :=
  let tone := Node.named "Tone" |>.output "value" .float "0.5"
  let tint := Node.named "Tint"
    |>.input "a" { (Port.ofKind .vector3).wired (.edge ⟨0⟩ "value") with broadcast := true }
    |>.input "b_2" ((Port.ofKind .vector3).wired (.raw "vec3(0.25)"))
    |>.output "color" .vector3 "in_a/in_b_2 // not in_b\n + in_b_2.zyx"
    |>.bodyOutput "glow" .float
    |>.body .fragment "out_color *= in_a;\n\n  out_glow = out_color.x;"
  let material := Node.named "Surface"
    |>.slot "tint" ((Port.ofKind .vector3).wired (.edge ⟨1⟩ "color")) (.plain .fragment "tint")
  ⟨#[⟨tone, none⟩, ⟨tint, none⟩, ⟨material, none⟩]⟩

theorem tinted_portNames (n : NodeId) : ∀ name ∈ (tinted.get n).toNode.portNames,
    ∀ c ∈ name.toList, isWordChar c = true := by
  have h : (tinted.get n).toNode.portNames.all (·.toList.all isWordChar) = true := by
    rcases n with ⟨_ | _ | _ | n⟩ <;> rfl
  simpa only [List.all_eq_true] using h

theorem port_names_resolved_tinted : ∃ shader color body, tinted.compile ⟨2⟩ = .ok shader ∧
    .declare "vec3" "Tint_1_out_color" color ∈ shader.fragment.statements ∧
    .block body ∈ shader.fragment.statements ∧ PortFree color ∧ PortFree body := by
  have hok : (tinted.compile ⟨2⟩).toBool = true := by decide +kernel
  obtain ⟨shader, hc⟩ := exists_of_toBool hok
  obtain ⟨w, hdisc, hstages⟩ := Store.port_names_resolved hc fun n _ => tinted_portNames n
  have hfacts : (Walk.discover tinted ⟨2⟩).toOption.map (fun w =>
      ((Plan.ofDiagram w.diagram).stageOrder .fragment, (w.diagram.entry 1).outputName "color",
        (w.diagram.design 1).outputs.entries.head?.map fun output => (output.1, output.2.kind),
        ((w.diagram.design 1).code .fragment).body.isSome)) =
      some ([2, 1], "Tint_1_out_color", some ("color", .vector3), true) := by decide +kernel
  rw [hdisc] at hfacts
  obtain ⟨horder, hfacts⟩ := Prod.mk.inj (Option.some.inj hfacts)
  obtain ⟨hname, hfacts⟩ := Prod.mk.inj hfacts
  obtain ⟨hhead, hbody⟩ := Prod.mk.inj hfacts
  obtain ⟨earlier, comment, inputs, outputs, scope, later, hst, -, houtputs, hscope⟩ :=
    hstages .fragment 1 (by rw [horder]; decide)
  have hmem : ∀ st ∈ outputs ++ scope, st ∈ shader.fragment.statements := by
    intro st hm
    have hfragment : shader.fragment.statements = _ := hst
    rw [hfragment]
    simp only [List.mem_append, List.mem_cons] at hm ⊢
    rcases hm with hm | hm <;> simp [hm]
  obtain ⟨⟨name, output⟩, hentry, he⟩ := Option.map_eq_some_iff.1 hhead
  obtain ⟨rfl, hkind⟩ := Prod.mk.inj he
  obtain ⟨rest, hentries⟩ := List.head?_eq_some_iff.1 hentry
  obtain ⟨code, hcode⟩ := Option.isSome_iff_exists.1 hbody
  rw [hentries] at houtputs
  rw [hcode] at hscope
  cases houtputs with
  | cons hcolor _ =>
    cases hscope with
    | cons htext _ =>
      obtain ⟨color, rfl, hcolorfree, -⟩ := hcolor
      obtain ⟨body, rfl, hbodyfree, -⟩ := htext
      refine ⟨shader, color, body, hc, ?_, hmem _ (by simp), hcolorfree, hbodyfree⟩
      have hdeclare := hmem _ (List.mem_append_left _ List.mem_cons_self)
      have hentryName : (Plan.ofDiagram w.diagram).diagram.entry 1 = w.diagram.entry 1 := rfl
      rw [hkind, hentryName, hname] at hdeclare
      exact hdeclare

end Tinted

end ShaderGraph
