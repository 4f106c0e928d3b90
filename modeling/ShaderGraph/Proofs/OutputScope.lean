import ShaderGraph.Proofs.Declarations
import ShaderGraph.Proofs.Resolution

/-!
# Outputs in scope

The outputs of a node are declared in their order, and the code of one may name any of them. So an
initializer has the variable of an output exactly where the author wrote the word for the output, or
the variable itself (`Plan.outputName_mem_words_iff`), and it comes behind its declaration exactly
if no output refers to itself or to a later one (`Store.outputs_in_scope`).
-/

namespace ShaderGraph

open Glsl

/-- The code of an output refers to an output of the node, by its word or by its variable. -/
def Entry.Refers (e : Entry) (spec : Output) (o : String) : Prop :=
  ∃ code, spec.expr = some code ∧ ("out_" ++ o ∈ words code ∨ e.outputName o ∈ words code)

/-- No output refers to itself or to a later one. -/
def Entry.OutputsInOrder (e : Entry) : Prop :=
  ∀ before name spec after, e.node.design.outputs.entries = before ++ (name, spec) :: after →
    ∀ o ∈ e.node.design.outputs.keys, e.Refers spec o → o ∈ before.map Prod.fst

/-- An initializer that has the variable of an output stands behind the declaration of it. -/
def Entry.DeclaredFirst (e : Entry) (statements : List Statement) : Prop :=
  ∀ front type name init back, statements = front ++ .declare type name init :: back →
    ∀ o ∈ e.node.design.outputs.keys, e.outputName o ∈ words init →
      ∃ type' init', .declare type' (e.outputName o) init' ∈ front

theorem exists_split_of_forall₂ {α β : Type} {R : α → β → Prop} {b : β} {back : List β} :
    ∀ {front : List β} {l : List α}, List.Forall₂ R l (front ++ b :: back) →
      ∃ before a after, l = before ++ a :: after ∧ before.length = front.length
  | [], _, h => by
    obtain ⟨a, after, -, -, rfl⟩ := List.forall₂_cons_right_iff.1 h
    exact ⟨[], a, after, rfl, rfl⟩
  | _ :: _, _, h => by
    obtain ⟨a, l, -, hl, rfl⟩ := List.forall₂_cons_right_iff.1 h
    obtain ⟨before, a', after, rfl, hlength⟩ := exists_split_of_forall₂ hl
    exact ⟨a :: before, a', after, rfl, congrArg (· + 1) hlength⟩

/-- No node reads itself. -/
theorem Diagram.WellFormed.notMem_producers {d : Diagram} (hd : d.WellFormed) {i : Nat}
    (hi : i < d.entries.length) : i ∉ d.producers i :=
  fun h => lt_irrefl _ (hd.ordered.idxOf_lt (hd.mem_order.2 hi) h)

namespace Plan

variable {d : Diagram} {stage : Stage} (hd : d.WellFormed) (hp : (ofDiagram d).PortsFit)
variable {i : Nat} (hi : i < d.entries.length)

/-! ## Variables of outputs -/

include hd hi

/-- The variable of an output is no word for anything. -/
theorem ofWord_outputName (o : String) :
    Reference.ofWord ((d.entry i).outputName o) = .ambient := by
  have hfree := ne_port_of_startsGenerated
    (startsGenerated_label (hd.ident_eq i hi) (.output o))
  rcases hr : Reference.ofWord ((d.entry i).outputName o) with name | name | name | _
  · exact absurd ((Reference.ofWord_eq_input_iff _ _).1 hr) (hfree name).1
  · exact absurd ((Reference.ofWord_eq_output_iff _ _).1 hr) (hfree name).2
  · have hlist := congrArg String.toList (eq_of_ofWord_uniform hr)
    obtain ⟨c, rest, hident, hc, -⟩ := ident_eq_cons (d.entry i).node.name i
    change ((d.entry i).label (.output o)).toList = _ at hlist
    rw [Entry.toList_label_output, hd.ident_eq i hi, hident, String.toList_append] at hlist
    cases (List.cons.inj hlist).1
    cases hc
  · rfl

theorem label_eq_outputName {j : Nat} (hj : j < d.entries.length) {l : Label} {o : String}
    (h : (d.entry j).label l = (d.entry i).outputName o) : j = i ∧ l = .output o :=
  hd.label_inj hj hi h

/-- An input is read by a name for another label, which may be widened. -/
theorem exists_label_of_inputText {name own : String}
    (h : (ofDiagram d).InputText stage i name own) : ∃ j < d.entries.length, ∃ l source target,
      own = widen ((d.entry j).label l) source target ∧ l.text ∈ (d.entry j).node.portNames ∧
      ∀ o, (d.entry j).label l ≠ (d.entry i).outputName o := by
  cases h with
  | own hm =>
    refine ⟨i, hi, .input name, .float, .float, ?_,
      List.mem_append_left _ (Table.mem_keys_of_mem hm), fun o he => ?_⟩
    · rw [widen, if_neg (by simp)]
      rfl
    · cases (label_eq_outputName hd hi hi he).2
  | @read port producer output spec hm hedge hspec =>
    have hread : producer ∈ d.producers i :=
      (Node.mem_producers _ _).2 ⟨name, output, port, hm, hedge⟩
    have hj := hd.producer_lt hi hread
    have hne : ∀ l o, (d.entry producer).label l ≠ (d.entry i).outputName o := by
      intro l o he
      obtain ⟨rfl, -⟩ := label_eq_outputName hd hi hj he
      exact hd.notMem_producers hi hread
    have hkey : output ∈ (d.entry producer).node.portNames :=
      List.mem_append_right _ (Table.mem_keys_of_get? hspec)
    unfold variableOf
    split_ifs
    · exact ⟨producer, hj, .varying output, _, _, rfl, hkey, hne _⟩
    · exact ⟨producer, hj, .output output, _, _, rfl, hkey, hne _⟩

theorem ne_outputName (text : String) (h : startsGenerated text.toList = false) (o : String) :
    text ≠ (d.entry i).outputName o := by
  rintro rfl
  have hstarts := startsGenerated_label (hd.ident_eq i hi) (.output o)
  change startsGenerated ((d.entry i).outputName o).toList = true at hstarts
  rw [h] at hstarts
  cases hstarts

variable {wires : List Wire}
variable (hw : (d.entry i).node.inputs.entries.mapM
  (fun input => (ofDiagram d).wire stage (d.entry i) input.1 input.2) = .ok wires)

include hp hw in
/-- A property that tells the variable of an output from what stands for anything else has what
stands in the place of the output's word, and the variable itself. -/
theorem answer_iff {o : String} {P : String → Prop} (honame : ∀ name ∈ (d.design i).outputs.keys,
      P ((d.entry i).outputName name) ↔ name = o)
    (hinput : ∀ name own, (ofDiagram d).InputText stage i name own → ¬ P own)
    (huniform : ∀ clock : Clock, (∀ c ∈ clock.uniform.toList, isWordChar c = true) →
      ¬ P ((d.entry i).uniformName clock))
    (hkept : ∀ word, IsName word.toList → (P word ↔ word = (d.entry i).outputName o))
    {word : String} (hword : IsName word.toList) {answer : Option String}
    (h : (d.entry i).rename stage wires word = .ok answer) :
    P (answer.getD word) ↔ word = "out_" ++ o ∨ word = (d.entry i).outputName o := by
  have hself := ofWord_outputName hd hi o
  have hspelled : (word = "out_" ++ o ∨ word = (d.entry i).outputName o) →
      Reference.ofWord word = .output o ∨ Reference.ofWord word = .ambient := by
    rintro (rfl | rfl)
    · exact .inl ((Reference.ofWord_eq_output_iff _ _).2 rfl)
    · exact .inr hself
  have hnone : Reference.ofWord word ≠ .output o →
      (P word ↔ word = "out_" ++ o ∨ word = (d.entry i).outputName o) := by
    intro hne
    rw [hkept word hword, or_iff_right]
    exact fun he => hne ((Reference.ofWord_eq_output_iff _ _).2 he)
  rcases hr : Reference.ofWord word with name | name | name | _ <;> rw [hr] at hspelled hnone
  · obtain rfl := (Reference.ofWord_eq_input_iff _ _).1 hr
    obtain ⟨own, rfl, hown⟩ := inputText_of_rename hd hp hi hw h
    exact iff_of_false (hinput _ _ hown) fun he => by simpa using hspelled he
  · obtain rfl := (Reference.ofWord_eq_output_iff _ _).1 hr
    obtain ⟨hkey, rfl⟩ := output_of_rename h
    refine (honame name hkey).trans ⟨?_, fun he => ?_⟩
    · rintro rfl
      exact .inl rfl
    · simpa using hspelled he
  · unfold Entry.rename at h
    rw [hr] at h
    dsimp only at h
    split at h
    · rename_i clock _
      split_ifs at h with hname <;> cases h
      · refine iff_of_false (huniform clock fun c hc => ?_) fun he => by simpa using hspelled he
        rw [eq_of_ofWord_uniform hr] at hword
        refine hword.isWordChar ?_
        rw [String.toList_append]
        exact List.mem_append_right _ (hname ▸ hc)
      · exact hnone nofun
    · cases h
      exact hnone nofun
  · unfold Entry.rename at h
    rw [hr] at h
    cases h
    exact hnone nofun

include hp hw in
/-- What stands in the place of a word is the variable of an output exactly if the word is the one
for the output, or the variable itself. -/
theorem answer_eq_outputName_iff {word : String} (hword : IsName word.toList)
    {answer : Option String} (h : (d.entry i).rename stage wires word = .ok answer) (o : String) :
    answer.getD word = (d.entry i).outputName o ↔
      word = "out_" ++ o ∨ word = (d.entry i).outputName o := by
  refine answer_iff hd hp hi hw (P := (· = (d.entry i).outputName o)) (fun name _ => ?_)
    (fun name own hown => ?_) (fun clock _ he => ?_) (fun _ _ => Iff.rfl) hword h
  · refine ⟨fun he => ?_, fun he => he ▸ rfl⟩
    cases (label_eq_outputName hd hi hi (l := .output name) he).2
    rfl
  · obtain ⟨j, -, l, source, target, rfl, -, hne⟩ := exists_label_of_inputText hd hi hown
    unfold widen
    split_ifs
    · refine ne_outputName hd hi _ ?_ o
      simp only [String.toList_append]
      cases target <;> rfl
    · exact hne o
  · cases (label_eq_outputName hd hi hi (l := .uniform clock.uniform) he).2

section Words

variable (hnames : ∀ i < d.entries.length, ∀ name ∈ (d.entry i).node.portNames,
  ∀ c ∈ name.toList, isWordChar c = true)
include hp hw hnames

/-- The variable of an output is a word of replaced code exactly if the word for the output, or the
variable itself, is a word of the code. -/
theorem outputName_mem_words_iff {code text : String}
    (h : replaceWords ((d.entry i).rename stage wires) code = .ok text) (o : String) :
    (d.entry i).outputName o ∈ words text ↔
      "out_" ++ o ∈ words code ∨ (d.entry i).outputName o ∈ words code := by
  have hlabel : ∀ l : Label, (∀ c ∈ l.text.toList, isWordChar c = true) →
      words ((d.entry i).label l) = [(d.entry i).label l] :=
    fun l hl => words_of_isName (isName_label (hd.ident_eq i hi) hl)
  obtain ⟨answers, hwords, hanswers, -⟩ := exists_answers h
  have hword : ∀ word ∈ words code,
      ((d.entry i).outputName o ∈ wordsFor ((d.entry i).rename stage wires) word ↔
        word = "out_" ++ o ∨ word = (d.entry i).outputName o) := by
    intro word hm
    obtain ⟨⟨_, answer⟩, hanswer, rfl⟩ := List.mem_map.1 (hwords ▸ hm)
    have hname := isName_of_mem_words hm
    have hrename := hanswers _ hanswer
    dsimp only at hrename hname ⊢
    rw [← answer_iff hd hp hi hw (P := ((d.entry i).outputName o ∈ words ·)) (fun name hkey => ?_)
      (fun name own hown hmem => ?_) (fun clock hclock hmem => ?_) (fun word hname => ?_) hname
      hrename]
    · rw [wordsFor, hrename]
      rcases answer with _ | answer
      · rw [Option.getD_none, words_of_isName hname]
      · rfl
    · rw [show words ((d.entry i).outputName name) = [(d.entry i).outputName name] from
        hlabel (.output name) (hnames i hi name (List.mem_append_right _ hkey)),
        List.mem_singleton]
      refine ⟨fun he => ?_, fun he => he ▸ rfl⟩
      cases (label_eq_outputName hd hi hi (l := .output name) he.symm).2
      rfl
    · obtain ⟨j, hj, l, source, target, rfl, hl, hne⟩ := exists_label_of_inputText hd hi hown
      have htype := ne_outputName hd hi target.type (by cases target <;> rfl) o
      have hlname := isName_label (hd.ident_eq j hj) (hnames j hj _ hl)
      rcases words_widen hlname source target with hwords | hwords <;> rw [hwords] at hmem
      · exact hne o (List.mem_singleton.1 hmem).symm
      · rcases List.mem_cons.1 hmem with he | hmem
        · exact htype he.symm
        · exact hne o (List.mem_singleton.1 hmem).symm
    · rw [show words ((d.entry i).uniformName clock) = [(d.entry i).uniformName clock] from
        hlabel (.uniform clock.uniform) hclock, List.mem_singleton] at hmem
      cases (label_eq_outputName hd hi hi (l := .uniform clock.uniform) hmem.symm).2
    · rw [words_of_isName hname, List.mem_singleton, eq_comm]
  rw [words_of_replaceWords hd hp hnames hi hw h, List.mem_flatMap]
  constructor
  · rintro ⟨word, hm, hmem⟩
    rcases (hword word hm).1 hmem with rfl | rfl
    · exact .inl hm
    · exact .inr hm
  · rintro (hm | hm)
    · exact ⟨_, hm, (hword _ hm).2 (.inl rfl)⟩
    · exact ⟨_, hm, (hword _ hm).2 (.inr rfl)⟩

end Words

/-! ## Declarations -/

variable {outputs : List Statement}
variable (hout : (d.entry i).node.design.outputs.entries.mapM (fun output =>
  (d.entry i).declaration stage wires output.1 output.2) = .ok outputs)

omit hd hi in
include hout in
/-- Every output has its declaration, behind those of the outputs before it. -/
theorem exists_declaration {before after : List (String × Output)} {name : String} {spec : Output}
    (hsplit : (d.entry i).node.design.outputs.entries = before ++ (name, spec) :: after) :
    ∃ front init back,
      outputs = front ++ .declare spec.kind.type ((d.entry i).outputName name) init :: back ∧
      front.length = before.length ∧
      targets front = before.map (fun output => (d.entry i).outputName output.1) ∧
      (d.entry i).declaration stage wires name spec =
        .ok (.declare spec.kind.type ((d.entry i).outputName name) init) := by
  rw [hsplit] at hout
  obtain ⟨front, st, back, hfront, hst, -, rfl⟩ := mapM_append_cons hout
  obtain ⟨init, rfl⟩ := declaration_eq_ok hst
  have htargets := targets_outputs hfront
  rw [List.map_map, List.map_map] at htargets
  exact ⟨front, init, back, rfl, ((mapM_eq_ok_iff _ _ _).1 hfront).length_eq.symm, htargets, hst⟩

include hp hw in
/-- Where code refers to outputs, the initializer has their variables. -/
theorem places_of_declaration {name : String} {spec : Output} {init : String}
    (h : (d.entry i).declaration stage wires name spec =
      .ok (.declare spec.kind.type ((d.entry i).outputName name) init))
    {code : String} (hcode : spec.expr = some code) : ∃ answers : List (String × Option String),
      answers.map Prod.fst = words code ∧ Replaced [] answers code.toList init.toList ∧
      ∀ o, (d.entry i).outputName o ∈ answers.map (fun a => a.2.getD a.1) ↔
        (d.entry i).Refers spec o := by
  obtain ⟨kind, expr⟩ := spec
  obtain rfl : expr = some code := hcode
  obtain ⟨text, htext, h⟩ := (bind_eq_ok_iff _ _ _).1 h
  cases h
  obtain ⟨answers, hwords, hanswers, hreplaced⟩ := exists_answers htext
  refine ⟨answers, hwords, hreplaced, fun o => ?_⟩
  have hiff : ∀ a ∈ answers, (a.2.getD a.1 = (d.entry i).outputName o ↔
      a.1 = "out_" ++ o ∨ a.1 = (d.entry i).outputName o) := by
    intro a ha
    have hm : a.1 ∈ words code := hwords ▸ List.mem_map_of_mem ha
    exact answer_eq_outputName_iff hd hp hi hw (isName_of_mem_words hm) (hanswers a ha) o
  simp only [List.mem_map, Entry.Refers, Option.some.injEq, exists_eq_left', ← hwords]
  constructor
  · rintro ⟨a, ha, he⟩
    exact ((hiff a ha).1 he).imp (fun he => ⟨a, ha, he⟩) fun he => ⟨a, ha, he⟩
  · rintro (⟨a, ha, he⟩ | ⟨a, ha, he⟩)
    · exact ⟨a, ha, (hiff a ha).2 (.inl he)⟩
    · exact ⟨a, ha, (hiff a ha).2 (.inr he)⟩

variable (hnames : ∀ i < d.entries.length, ∀ name ∈ (d.entry i).node.portNames,
  ∀ c ∈ name.toList, isWordChar c = true)

include hp hw hnames in
theorem outputName_mem_init_iff {name : String} {spec : Output} {init : String}
    (h : (d.entry i).declaration stage wires name spec =
      .ok (.declare spec.kind.type ((d.entry i).outputName name) init)) (o : String) :
    (d.entry i).outputName o ∈ words init ↔ (d.entry i).Refers spec o := by
  obtain ⟨kind, _ | code⟩ := spec
  · cases h
    refine iff_of_false (fun hm => ?_) ?_
    · exact ne_outputName hd hi kind.type (by cases kind <;> rfl) o
        (List.mem_singleton.1 (words_zero kind hm)).symm
    · rintro ⟨_, hcode, -⟩
      cases hcode
  · obtain ⟨text, htext, h⟩ := (bind_eq_ok_iff _ _ _).1 h
    cases h
    rw [outputName_mem_words_iff hd hp hi hw hnames htext]
    simp only [Entry.Refers, Option.some.injEq, exists_eq_left']

include hp hw hnames hout in
/-- The variables of outputs stand behind their declarations exactly if no output refers to itself
or to a later one. -/
theorem declaredFirst_iff : (d.entry i).DeclaredFirst outputs ↔ (d.entry i).OutputsInOrder := by
  constructor
  · intro h before name spec after hsplit o ho hrefers
    obtain ⟨front, init, back, hst, -, htargets, hdecl⟩ := exists_declaration hout hsplit
    obtain ⟨type, init', hm⟩ := h front _ _ _ back hst o ho
      ((outputName_mem_init_iff hd hp hi hw hnames hdecl o).2 hrefers)
    have htarget : (d.entry i).outputName o ∈ targets front := List.mem_filterMap.2 ⟨_, hm, rfl⟩
    rw [htargets] at htarget
    obtain ⟨output, houtput, he⟩ := List.mem_map.1 htarget
    cases (label_eq_outputName hd hi hi (l := .output output.1) he).2
    exact List.mem_map_of_mem houtput
  · intro h front type name init back hst o ho hm
    obtain ⟨before, ⟨name', spec⟩, after, hsplit, hlength⟩ :=
      exists_split_of_forall₂ (hst ▸ (mapM_eq_ok_iff _ _ _).1 hout)
    obtain ⟨front', init', back', hst', hlength', htargets, hdecl⟩ :=
      exists_declaration hout hsplit
    obtain ⟨rfl, hrest⟩ := List.append_inj (hst.symm.trans hst') (hlength.symm.trans hlength'.symm)
    cases (List.cons.inj hrest).1
    have hbefore := h before name' spec after hsplit o ho
      ((outputName_mem_init_iff hd hp hi hw hnames hdecl o).1 hm)
    have htarget : (d.entry i).outputName o ∈ targets front := by
      rw [htargets]
      obtain ⟨output, houtput, rfl⟩ := List.mem_map.1 hbefore
      exact List.mem_map_of_mem houtput
    obtain ⟨st, hmem, htarget⟩ := List.mem_filterMap.1 htarget
    obtain ⟨output, -, hdecl⟩ := exists_of_mem_mapM hout (hst ▸ List.mem_append_left _ hmem)
    obtain ⟨init'', rfl⟩ := declaration_eq_ok hdecl
    have he : (d.entry i).outputName output.1 = (d.entry i).outputName o := Option.some.inj htarget
    rw [he] at hmem
    exact ⟨_, _, hmem⟩

end Plan

/-- The outputs are declared in order, and an initializer has the variables of outputs in the places
of the words that refer to them. -/
def Entry.OutputsPlaced (e : Entry) (statements : List Statement) : Prop :=
  ∀ before name spec after, e.node.design.outputs.entries = before ++ (name, spec) :: after →
    ∃ front init back,
      statements = front ++ .declare spec.kind.type (e.outputName name) init :: back ∧
      targets front = before.map (fun output => e.outputName output.1) ∧
      ∀ code, spec.expr = some code → ∃ answers : List (String × Option String),
        answers.map Prod.fst = words code ∧ Replaced [] answers code.toList init.toList ∧
        ∀ o, e.outputName o ∈ answers.map (fun a => a.2.getD a.1) ↔ e.Refers spec o

/-- The variables of a node's outputs stand in its initializers where its code refers to outputs. If
ports and outputs have names of word characters, each of them stands behind its declaration exactly
if no output refers to itself or to a later one. -/
theorem Store.outputs_in_scope {s : Store} {root : NodeId} {shader : Shader}
    (hc : s.compile root = .ok shader) :
    ∃ w, Walk.discover s root = .ok w ∧ ∀ stage,
      ∀ i ∈ (Plan.ofDiagram w.diagram).stageOrder stage,
        ∃ earlier comment inputs outputs scope later,
          (shader.stage stage).statements = earlier ++ .comment comment ::
            (inputs ++ outputs ++ scope ++ (Plan.ofDiagram w.diagram).handOver stage i) ++ later ∧
          (w.diagram.entry i).OutputsPlaced outputs ∧
          ((∀ n, s.Reaches root n → ∀ name ∈ (s.get n).toNode.portNames, ∀ c ∈ name.toList,
              isWordChar c = true) →
            ((w.diagram.entry i).DeclaredFirst outputs ↔
              (w.diagram.entry i).OutputsInOrder)) := by
  obtain ⟨-, w, hdisc, hplan⟩ := (s.compile_eq_ok_iff root shader).1 hc
  have hw := Walk.discover_ok hdisc
  have hd := hw.wellFormed
  have hp := Plan.portsFit_of_compile hplan
  refine ⟨w, hdisc, fun stage i hi => ?_⟩
  have hlt := Plan.lt_of_mem_stageOrder hd hi
  obtain ⟨before, after, ho⟩ := List.append_of_mem hi
  obtain ⟨blocks, block, later, -, hblock, hst⟩ :=
    Plan.emit_split (Plan.emit_of_compile hplan stage) ho
  obtain ⟨wires, outputs, scope, hwires, hout, -, rfl⟩ :=
    (Plan.emitNode_eq_ok_iff stage i block).1 hblock
  refine ⟨_, _, _, outputs, scope, later, hst, ?_, fun hnames => ?_⟩
  · intro before name spec after hsplit
    obtain ⟨front, init, back, hst, -, htargets, hdecl⟩ := Plan.exists_declaration hout hsplit
    exact ⟨front, init, back, hst, htargets,
      fun code hcode => Plan.places_of_declaration hd hp hlt hwires hdecl hcode⟩
  · exact Plan.declaredFirst_iff hd hp hlt hwires hout (hw.isWordChar_portNames hnames)

section Paired

/-- A material that reads the first of two outputs. -/
def paired (first second : String) : Store :=
  let pair := Node.named "Pair" |>.output "a" .float first |>.output "b" .float second
  let material := Node.named "Surface"
    |>.slot "tone" ((Port.ofKind .float).wired (.edge ⟨0⟩ "a")) (.plain .fragment "tone")
  ⟨#[⟨pair, none⟩, ⟨material, none⟩]⟩

theorem isWordChar_paired (n : NodeId) :
    ∀ name ∈ ((paired "1.0" "out_a").get n).toNode.portNames,
      ∀ c ∈ name.toList, isWordChar c = true := by
  have h : ((paired "1.0" "out_a").get n).toNode.portNames.all
      (·.toList.all isWordChar) = true := by
    rcases n with ⟨_ | _ | n⟩ <;> rfl
  simpa only [List.all_eq_true] using h

theorem outputsInOrder_paired : Entry.OutputsInOrder
    ⟨"Pair_1", Node.named "Pair" |>.output "a" .float "1.0" |>.output "b" .float "out_a"⟩ := by
  intro before name spec after hsplit o ho hrefers
  change [("a", (⟨.float, some "1.0"⟩ : Output)), ("b", ⟨.float, some "out_a"⟩)] = _ at hsplit
  obtain ⟨code, hcode, hrefers⟩ := hrefers
  rcases before with _ | ⟨first, _ | ⟨second, before⟩⟩
  · cases hsplit
    cases hcode
    have hwords : words "1.0" = [] := by decide +kernel
    simp [hwords] at hrefers
  · cases hsplit
    cases hcode
    have hwords : words "out_a" = ["out_a"] := by decide +kernel
    rw [hwords] at hrefers
    rcases List.mem_pair.1 (show o ∈ ["a", "b"] from ho) with rfl | rfl
    · exact List.mem_singleton_self _
    · revert hrefers
      decide +kernel
  · simp at hsplit

theorem outputs_in_scope_paired : ∃ shader w earlier outputs later,
    (paired "1.0" "out_a").compile ⟨1⟩ = .ok shader ∧
    Walk.discover (paired "1.0" "out_a") ⟨1⟩ = .ok w ∧
    (shader.stage .fragment).statements = earlier ++ outputs ++ later ∧
    (w.diagram.entry 1).OutputsPlaced outputs ∧ (w.diagram.entry 1).DeclaredFirst outputs := by
  have hok : ((paired "1.0" "out_a").compile ⟨1⟩).toBool = true := by decide +kernel
  have hwalk : (Walk.discover (paired "1.0" "out_a") ⟨1⟩).toOption.map
      (fun w => ((Plan.ofDiagram w.diagram).stageOrder .fragment, w.diagram.entry 1)) =
      some ([1], ⟨"Pair_1", Node.named "Pair"
        |>.output "a" .float "1.0" |>.output "b" .float "out_a"⟩) := by decide +kernel
  obtain ⟨shader, hc⟩ := exists_of_toBool hok
  obtain ⟨w, hd, h⟩ := Store.outputs_in_scope hc
  rw [hd] at hwalk
  obtain ⟨horder, hentry⟩ := Prod.mk.inj (Option.some.inj hwalk)
  have hmem : 1 ∈ (Plan.ofDiagram w.diagram).stageOrder .fragment :=
    horder ▸ List.mem_singleton_self 1
  obtain ⟨earlier, comment, inputs, outputs, scope, later, hst, hplaced, hfirst⟩ :=
    h .fragment 1 hmem
  refine ⟨shader, w, earlier ++ .comment comment :: inputs, outputs,
    scope ++ (Plan.ofDiagram w.diagram).handOver .fragment 1 ++ later, hc, hd, ?_, hplaced, ?_⟩
  · rw [hst]
    simp only [List.append_assoc, List.cons_append]
  · refine (hfirst fun n _ => isWordChar_paired n).2 ?_
    rw [hentry]
    exact outputsInOrder_paired

/-- A variable is read in front of its declaration. -/
theorem output_read_undeclared : ∃ shader w, (paired "out_b" "1.0").compile ⟨1⟩ = .ok shader ∧
    Walk.discover (paired "out_b" "1.0") ⟨1⟩ = .ok w ∧
    1 ∈ (Plan.ofDiagram w.diagram).stageOrder .fragment ∧
    (shader.stage .fragment).statements = [.comment "Pair (Pair_1)",
      .declare "float" "Pair_1_out_a" "Pair_1_out_b", .declare "float" "Pair_1_out_b" "1.0",
      .assign "tone" "Pair_1_out_a"] ∧
    ¬ (w.diagram.entry 1).DeclaredFirst (shader.stage .fragment).statements := by
  have hst : ((paired "out_b" "1.0").compile ⟨1⟩).toOption.map
      (fun shader => (shader.stage .fragment).statements) = some [.comment "Pair (Pair_1)",
      .declare "float" "Pair_1_out_a" "Pair_1_out_b", .declare "float" "Pair_1_out_b" "1.0",
      .assign "tone" "Pair_1_out_a"] := by decide +kernel
  have hwalk : (Walk.discover (paired "out_b" "1.0") ⟨1⟩).toOption.map
      (fun w => ((Plan.ofDiagram w.diagram).stageOrder .fragment, w.diagram.entry 1)) =
      some ([1], ⟨"Pair_1", Node.named "Pair"
        |>.output "a" .float "out_b" |>.output "b" .float "1.0"⟩) := by decide +kernel
  obtain ⟨shader, hc, hst⟩ := exists_of_toOption hst
  obtain ⟨w, hd, hwalk⟩ := exists_of_toOption hwalk
  obtain ⟨horder, hentry⟩ := Prod.mk.inj hwalk
  refine ⟨shader, w, hc, hd, horder ▸ List.mem_singleton_self 1, hst, fun h => ?_⟩
  rw [hst, hentry] at h
  obtain ⟨type, init, hm⟩ := h [_] _ _ _ _ rfl "b" (by decide) (by decide +kernel)
  simp at hm

end Paired

end ShaderGraph
