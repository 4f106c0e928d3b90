import ShaderGraph.Proofs.Compiles
import ShaderGraph.Proofs.Replacement

/-!
# Where the statements of a node stand

A stage is emitted in the order of its nodes, so the block of a node stands behind the blocks of
those before it (`emit_split`), and every producer that is emitted in the stage is among them
(`mem_of_stageOrder`). What a node reads in a stage is either declared in that stage or handed over
to it (`carried_of_readsIn`).
-/

namespace ShaderGraph

theorem mapM_append_cons {ε α β : Type} {f : α → Except ε β} {before after : List α} {a : α}
    {r : List β} (h : (before ++ a :: after).mapM f = .ok r) :
    ∃ before' b after', before.mapM f = .ok before' ∧ f a = .ok b ∧ after.mapM f = .ok after' ∧
      r = before' ++ b :: after' := by
  rw [List.mapM_append] at h
  simp only [bind_eq_ok_iff, List.mapM_cons] at h
  obtain ⟨before', hb, _, ⟨b, ha, after', hafter, h₁⟩, h₂⟩ := h
  cases h₁
  cases h₂
  exact ⟨before', b, after', hb, ha, hafter, rfl⟩

theorem mem_of_mapM {ε α β : Type} {f : α → Except ε β} {l : List α} {r : List β}
    (h : l.mapM f = .ok r) {a : α} (ha : a ∈ l) : ∃ b ∈ r, f a = .ok b := by
  obtain ⟨before, after, rfl⟩ := List.append_of_mem ha
  obtain ⟨before', b, after', -, hb, -, rfl⟩ := mapM_append_cons h
  exact ⟨b, by simp, hb⟩

theorem exists_of_mem_mapM {ε α β : Type} {f : α → Except ε β} {l : List α} {r : List β}
    (h : l.mapM f = .ok r) {b : β} (hb : b ∈ r) : ∃ a ∈ l, f a = .ok b := by
  rw [mapM_eq_ok_iff] at h
  induction h with
  | nil => cases hb
  | cons hab _ ih =>
    rcases List.mem_cons.1 hb with rfl | hb
    · exact ⟨_, by simp, hab⟩
    · obtain ⟨a, ha, hf⟩ := ih hb
      exact ⟨a, by simp [ha], hf⟩

/-- Lists that are read off the results of a traversal are lists read off what is traversed. -/
theorem flatMap_of_mapM {ε α β γ : Type} {f : α → Except ε β} {g : β → List γ} {g' : α → List γ}
    (hf : ∀ a b, f a = .ok b → g b = g' a) {l : List α} {r : List β} (h : l.mapM f = .ok r) :
    r.flatMap g = l.flatMap g' := by
  rw [mapM_eq_ok_iff] at h
  induction h with
  | nil => rfl
  | cons hab _ ih => rw [List.flatMap_cons, List.flatMap_cons, hf _ _ hab, ih]

def Shader.stage (s : Shader) : Stage → StageSource
  | .vertex => s.vertex
  | .fragment => s.fragment

theorem Shader.source_eq (s : Shader) (stage : Stage) : s.source stage = (s.stage stage).render := by
  cases stage <;> rfl

/-! ## Templates -/

namespace Slot

/-- A text is a template with a value in place of every placeholder. -/
def Fills (template value text : List Char) : Prop :=
  ∃ part parts, (∀ p ∈ part :: parts, ¬ placeholder.toList <:+: p) ∧
    template = placeholder.toList.intercalate (part :: parts) ∧
    text = value.intercalate (part :: parts)

theorem fills_fillIn (value template : List Char) :
    Fills template value (fillIn value template) := by
  fun_induction fillIn with
  | case1 rest ih =>
    obtain ⟨part, parts, hparts, htemplate, htext⟩ := ih
    refine ⟨[], part :: parts, ?_, ?_, ?_⟩
    · exact List.forall_mem_cons.2 ⟨by decide, hparts⟩
    · rw [htemplate]
      simp [List.intercalate, placeholder]
    · rw [htext]
      simp [List.intercalate]
  | case2 c rest hstart ih =>
    obtain ⟨part, parts, hparts, htemplate, htext⟩ := ih
    have hcons : ∀ sep : List Char, sep.intercalate ((c :: part) :: parts) =
        c :: sep.intercalate (part :: parts) := by
      intro sep
      cases parts <;> simp [List.intercalate]
    refine ⟨c :: part, parts, ?_, by rw [hcons, htemplate], by rw [hcons, htext]⟩
    obtain ⟨hpart, hrest⟩ := List.forall_mem_cons.1 hparts
    refine List.forall_mem_cons.2 ⟨fun hin => ?_, hrest⟩
    rcases List.infix_cons_iff.1 hin with hprefix | hin
    · -- the template would start with a placeholder
      have hfront : c :: part <+: c :: rest := by
        rw [htemplate]
        cases parts <;> simp [List.intercalate]
      obtain ⟨behind, hbehind⟩ := hprefix.trans hfront
      simp only [placeholder] at hbehind
      cases hbehind
      exact hstart _ rfl rfl
    · exact hpart hin
  | case3 => exact ⟨[], [], by simp [placeholder], rfl, rfl⟩

theorem fills_expression (slot : Slot) (value : String) :
    Fills slot.template.toList value.toList (slot.expression value).toList := by
  rw [expression, String.toList_ofList]
  exact fills_fillIn _ _

end Slot

namespace Plan

variable {p : Plan} {stage : Stage}

theorem emit_of_compile {shader : Shader} (h : p.compile = .ok shader) (stage : Stage) :
    p.emit stage = .ok (shader.stage stage) := by
  obtain ⟨-, -, hvertex, hfragment, -⟩ := (compile_eq_ok_iff _ _).1 h
  cases stage with
  | vertex => exact hvertex
  | fragment => exact hfragment

theorem portsFit_of_compile {shader : Shader} (h : p.compile = .ok shader) : p.PortsFit := by
  obtain ⟨hports, -⟩ := (compile_eq_ok_iff _ _).1 h
  exact (checkPorts_eq_ok_iff _).1 hports

/-! ## The order of a stage -/

theorem mem_stageOrder {i : Nat} : i ∈ p.stageOrder stage ↔ i ∈ p.diagram.order ∧
    (p.share i).stages.contains stage = true ∧ (p.diagram.design i).isMaster = false := by
  rw [stageOrder, List.mem_filter, Bool.and_eq_true, Bool.not_eq_true']

theorem nodup_stageOrder (hd : p.diagram.WellFormed) : (p.stageOrder stage).Nodup :=
  hd.nodup_order.filter _

/-- A producer that is emitted in a stage comes before its consumer. -/
theorem mem_of_stageOrder (hd : p.diagram.WellFormed) {before after : List Nat} {i j : Nat}
    (h : p.stageOrder stage = before ++ i :: after) (hj : j ∈ p.diagram.producers i)
    (hs : j ∈ p.stageOrder stage) : j ∈ before := by
  obtain ⟨l₁, rest, horder, rfl, hrest⟩ := List.filter_eq_append_iff.1 h
  obtain ⟨l₂, l₃, rfl, hskip, -, -⟩ := List.filter_eq_cons_iff.1 hrest
  have hmem := hd.ordered (l₁ ++ l₂) i l₃ (by simpa using horder) j hj
  obtain ⟨-, hq⟩ := List.mem_filter.1 hs
  rcases List.mem_append.1 hmem with hm | hm
  · exact List.mem_filter.2 ⟨hm, hq⟩
  · exact absurd hq (hskip j hm)

/-! ## Blocks -/

/-- The block of a node stands behind the blocks of the nodes before it. -/
theorem emit_split {source : StageSource} (h : p.emit stage = .ok source)
    {before after : List Nat} {i : Nat} (ho : p.stageOrder stage = before ++ i :: after) :
    ∃ blocks block later, before.mapM (p.emitNode stage) = .ok blocks ∧
      p.emitNode stage i = .ok block ∧ source.statements = blocks.flatten ++ block ++ later := by
  obtain ⟨nodes, slots, hn, -, rfl⟩ := (emit_eq_ok_iff stage source).1 h
  rw [ho] at hn
  obtain ⟨blocks, block, rest, hb, hi, -, rfl⟩ := mapM_append_cons hn
  refine ⟨blocks, block, rest.flatten ++ slots.flatten, hb, hi, ?_⟩
  simp only [List.flatten_append, List.flatten_cons, List.append_assoc]

theorem declaration_eq_ok {e : Entry} {wires : List Wire} {name : String} {output : Output}
    {st : Statement} (h : e.declaration stage wires name output = .ok st) :
    ∃ init, st = .declare output.kind.type (e.outputName name) init := by
  simp only [Entry.declaration] at h
  rcases output with ⟨kind, _ | code⟩
  · cases h
    exact ⟨_, rfl⟩
  · obtain ⟨init, -, h⟩ := (bind_eq_ok_iff _ _ _).1 h
    cases h
    exact ⟨init, rfl⟩

/-- The block of a node declares every output under its name, with its type. -/
theorem declare_mem_of_emitNode {i : Nat} {block : List Statement}
    (h : p.emitNode stage i = .ok block) {output : String} {spec : Output}
    (hspec : (p.diagram.design i).outputs.get? output = some spec) :
    ∃ init, .declare spec.kind.type ((p.diagram.entry i).outputName output) init ∈ block := by
  obtain ⟨wires, outputs, scope, -, ho, -, rfl⟩ := (emitNode_eq_ok_iff stage i block).1 h
  obtain ⟨st, hst, hdecl⟩ := mem_of_mapM ho ((Table.get?_eq_some_iff _ _ _).1 hspec)
  obtain ⟨init, rfl⟩ := declaration_eq_ok hdecl
  exact ⟨init, by simp [hst]⟩

/-- The code of a node stands in its block with its words replaced: the expressions of outputs as
initializers, and the body. -/
theorem replaced_of_emitNode {i : Nat} {block : List Statement}
    (h : p.emitNode stage i = .ok block) :
    ∃ wires, (p.diagram.entry i).node.inputs.entries.mapM
        (fun input => p.wire stage (p.diagram.entry i) input.1 input.2) = .ok wires ∧
      (∀ name output code, (name, output) ∈ (p.diagram.entry i).node.design.outputs.entries →
        output.expr = some code → ∃ text,
          Glsl.replaceWords ((p.diagram.entry i).rename stage wires) code = .ok text ∧
          .declare output.kind.type ((p.diagram.entry i).outputName name) text ∈ block) ∧
      ∀ code, ((p.diagram.entry i).node.design.code stage).body = some code → ∃ text,
        Glsl.replaceWords ((p.diagram.entry i).rename stage wires) code = .ok text ∧
        .block text ∈ block := by
  obtain ⟨wires, outputs, scope, hw, ho, hs, rfl⟩ := (emitNode_eq_ok_iff stage i block).1 h
  refine ⟨wires, hw, fun name output code hm hcode => ?_, fun code hcode => ?_⟩
  · obtain ⟨st, hst, hdecl⟩ := mem_of_mapM ho hm
    rw [Entry.declaration, hcode] at hdecl
    obtain ⟨text, htext, hdecl⟩ := (bind_eq_ok_iff _ _ _).1 hdecl
    cases hdecl
    exact ⟨text, htext, by simp [hst]⟩
  · rw [Entry.scope, hcode] at hs
    obtain ⟨text, htext, hs⟩ := (bind_eq_ok_iff _ _ _).1 hs
    cases hs
    exact ⟨text, htext, by simp⟩

/-- In a block of a node, a text stands wherever the node's code has a word: in the initializer of
every output with an expression, and in the body. -/
structure PutsIn (e : Entry) (stage : Stage) (block : List Statement) (word own : String) :
    Prop where
  outputs : ∀ name output code, (name, output) ∈ e.node.design.outputs.entries →
    output.expr = some code → ∃ init, .declare output.kind.type (e.outputName name) init ∈ block ∧
      Glsl.Puts word own code init
  body : ∀ code, (e.node.design.code stage).body = some code → ∃ text, .block text ∈ block ∧
    Glsl.Puts word own code text

/-- A text is the answer to a node's word for an input, and the block of the node has it in the
place of every such word of the node's code. -/
def Substitutes (p : Plan) (stage : Stage) (i : Nat) (name text : String) : Prop :=
  ∃ wires block, (p.diagram.entry i).node.inputs.entries.mapM
      (fun input => p.wire stage (p.diagram.entry i) input.1 input.2) = .ok wires ∧
    (p.diagram.entry i).rename stage wires ("in_" ++ name) = .ok (some text) ∧
    p.emitNode stage i = .ok block ∧
    PutsIn (p.diagram.entry i) stage block ("in_" ++ name) text

theorem Substitutes.putsIn {i : Nat} {name text : String} (h : p.Substitutes stage i name text)
    {block : List Statement} (hblock : p.emitNode stage i = .ok block) :
    PutsIn (p.diagram.entry i) stage block ("in_" ++ name) text := by
  obtain ⟨-, block', -, -, hblock', hputs⟩ := h
  cases hblock.symm.trans hblock'
  exact hputs

theorem find?_wire {e : Entry} {wires : List Wire} (hw : e.node.inputs.entries.mapM
      (fun input => p.wire stage e input.1 input.2) = .ok wires) {name : String}
    {port : Port Nat} (hm : (name, port) ∈ e.node.inputs.entries) :
    ∃ w, p.wire stage e name port = .ok w ∧ wires.find? (·.port = name) = some w := by
  obtain ⟨w, hmem, hwire⟩ := mem_of_mapM hw hm
  have hnd : (wires.map Wire.port).Nodup := by
    rw [map_port_of_mapM_wire hw]
    exact e.node.inputs.nodup
  have hport : w.port = name := port_of_wire hwire
  refine ⟨w, hwire, ?_⟩
  rcases hf : wires.find? (·.port = name) with _ | w'
  · simp only [List.find?_eq_none, decide_eq_true_eq] at hf
    exact absurd hport (hf w hmem)
  · have hport' := List.find?_some hf
    simp only [decide_eq_true_eq] at hport'
    have : w' = w := List.inj_on_of_nodup_map hnd (List.mem_of_find?_eq_some hf) hmem
      (hport'.trans hport.symm)
    rw [this] at hf
    exact hf

theorem exists_input_of_find {e : Entry} {wires : List Wire} (hw : e.node.inputs.entries.mapM
      (fun input => p.wire stage e input.1 input.2) = .ok wires) {name : String} {w : Wire}
    (hf : wires.find? (·.port = name) = some w) :
    ∃ port, (name, port) ∈ e.node.inputs.entries ∧ p.wire stage e name port = .ok w := by
  obtain ⟨⟨key, port⟩, hm, hwire⟩ := exists_of_mem_mapM hw (List.mem_of_find?_eq_some hf)
  have hport : w.port = name := by simpa using List.find?_some hf
  obtain rfl : key = name := (port_of_wire hwire).symm.trans hport
  exact ⟨port, hm, hwire⟩

theorem rename_input {e : Entry} {wires : List Wire} {name : String} {w : Wire}
    (h : wires.find? (·.port = name) = some w) :
    e.rename stage wires ("in_" ++ name) = .ok (some w.expr) := by
  simp [Entry.rename, (Reference.ofWord_eq_input_iff _ _).2 rfl, h]

theorem substitutes_of_wire {i : Nat} {block : List Statement}
    (h : p.emitNode stage i = .ok block) {name : String} {port : Port Nat}
    (hm : (name, port) ∈ (p.diagram.entry i).node.inputs.entries) :
    ∃ w, p.wire stage (p.diagram.entry i) name port = .ok w ∧
      p.Substitutes stage i name w.expr := by
  obtain ⟨wires, hw, houtputs, hbody⟩ := replaced_of_emitNode h
  obtain ⟨w, hwire, hf⟩ := find?_wire hw hm
  have hrename : (p.diagram.entry i).rename stage wires ("in_" ++ name) = .ok (some w.expr) :=
    rename_input hf
  refine ⟨w, hwire, wires, block, hw, hrename, h, fun output spec code ho hcode => ?_,
    fun code hcode => ?_⟩
  · obtain ⟨text, htext, hdecl⟩ := houtputs output spec code ho hcode
    exact ⟨text, hdecl, Glsl.puts_of_replaceWords hrename htext⟩
  · obtain ⟨text, htext, hblock⟩ := hbody code hcode
    exact ⟨text, hblock, Glsl.puts_of_replaceWords hrename htext⟩

/-- A node's code has what a producer's variable is widened to in place of an input with an edge. -/
theorem PortsFit.exists_substitute (hp : p.PortsFit) (hd : p.diagram.WellFormed) {i : Nat}
    (hi : i < p.diagram.entries.length) {block : List Statement}
    (hblock : p.emitNode stage i = .ok block) {name : String} {port : Port Nat}
    (hm : (name, port) ∈ (p.diagram.entry i).node.inputs.entries) {producer : Nat}
    {output : String} (hs : port.source = some (.edge producer output)) :
    ∃ spec, (p.diagram.design producer).outputs.get? output = some spec ∧
      port.kind.accepts spec.kind port.broadcast = true ∧ p.Substitutes stage i name
        (Glsl.widen (p.variableOf stage producer output) spec.kind port.kind) := by
  obtain ⟨spec, hspec, -, haccepts, href⟩ :=
    hp.exists_reference hd hi hm ((port.edge?_eq_some_iff _ _).2 hs)
  obtain ⟨w, hwire, hsub⟩ := substitutes_of_wire hblock hm
  simp only [wire, hs, href] at hwire
  cases hwire
  exact ⟨spec, hspec, haccepts, hsub⟩

/-! ## What carries an output -/

variable {d : Diagram}

/-- An output that is read in a stage is produced there, or it is handed over to it. -/
theorem carried_of_readsIn (hd : d.WellFormed) {i : Nat} (hi : i < d.entries.length)
    {name : String} {j : Nat} {o : String} (he : (d.entry i).node.Edge name j o)
    (hr : (d.design i).ReadsIn name ((ofDiagram d).share i).stages stage) :
    if stage = .fragment ∧ (d.design j).interpolated = true then
      o ∈ ((ofDiagram d).share j).varyings ∧
        ((ofDiagram d).share j).stages.contains .vertex = true
    else ((ofDiagram d).share j).stages.contains stage = true ∧
      ¬ (stage = .fragment ∧ o ∈ ((ofDiagram d).share j).varyings) := by
  have hj : j < d.entries.length := hd.edge_lt hi he
  have hs := Diagram.shares_settled hd
  have hread : d.ReadIn d.order.reverse d.shares j o stage :=
    ⟨i, List.mem_reverse.2 (hd.mem_order.2 hi), name, he, hr⟩
  have hcon := (hs.contains j hj _).2 (.inr ⟨o, stage, hread, rfl⟩)
  split_ifs with h
  · rw [Design.sourceStage, if_pos h] at hcon
    exact ⟨(hs.varyings j hj o).2 ⟨h.2, h.1 ▸ hread⟩, hcon⟩
  · rw [Design.sourceStage, if_neg h] at hcon
    exact ⟨hcon, fun hv => h ⟨hv.1, ((hs.varyings j hj o).1 hv.2).1⟩⟩

theorem variableOf_of_readsIn (hd : d.WellFormed) {i : Nat} (hi : i < d.entries.length)
    {name : String} {j : Nat} {o : String} (he : (d.entry i).node.Edge name j o)
    (hr : (d.design i).ReadsIn name ((ofDiagram d).share i).stages stage) :
    (ofDiagram d).variableOf stage j o =
      if stage = .fragment ∧ (d.design j).interpolated = true then (d.entry j).varyingName o
      else (d.entry j).outputName o := by
  have hc := carried_of_readsIn hd hi he hr
  split_ifs at hc with h
  · rw [if_pos h]
    exact if_pos ⟨h.1, hc.1⟩
  · rw [if_neg h]
    exact if_neg hc.2

theorem readsIn_of_mem_stageOrder {i : Nat} (hi : i ∈ (ofDiagram d).stageOrder stage)
    (name : String) : (d.design i).ReadsIn name ((ofDiagram d).share i).stages stage := by
  obtain ⟨-, hstage, hmaster⟩ := mem_stageOrder.1 hi
  change (d.design i).isMaster = false at hmaster
  rw [Design.ReadsIn, hmaster]
  exact hstage

/-- What is handed over is an output, and its node takes part in the vertex stage and is read. -/
theorem of_mem_varyings (hd : d.WellFormed) (hp : (ofDiagram d).PortsFit) {j : Nat}
    (hj : j < d.entries.length) {o : String}
    (ho : o ∈ ((ofDiagram d).share j).varyings) :
    (∃ spec, (d.design j).outputs.get? o = some spec) ∧
      ((ofDiagram d).share j).stages.contains .vertex = true ∧
      ∃ i < d.entries.length, j ∈ d.producers i := by
  have hs := Diagram.shares_settled hd
  obtain ⟨hi, hread⟩ := (hs.varyings j hj o).1 ho
  have hcon := (hs.contains j hj .vertex).2 (.inr ⟨o, .fragment, hread, by
    rw [Design.sourceStage, if_pos ⟨rfl, hi⟩]⟩)
  obtain ⟨i, hi, name, ⟨port, hm, he⟩, -⟩ := hread
  have hlt := hd.mem_order.1 (List.mem_reverse.1 hi)
  obtain ⟨spec, hspec, -⟩ := hp.exists_reference hd hlt hm he
  exact ⟨⟨spec, hspec⟩, hcon, i, hlt, (Node.mem_producers _ _).2 ⟨name, o, port, hm, he⟩⟩

theorem mem_varyings_iff {v : Varying} : v ∈ p.varyings ↔ ∃ i < p.diagram.entries.length,
    ∃ o ∈ (p.share i).varyings, ∃ spec, (p.diagram.design i).outputs.get? o = some spec ∧
      ⟨spec.kind.type, (p.diagram.entry i).varyingName o⟩ = v := by
  simp only [varyings, List.mem_flatMap, List.mem_range, List.mem_filterMap,
    Option.map_eq_some_iff]
  rfl

/-! ## Places -/

/-- Where the statements of a node stand among those of its stage. -/
structure Place (d : Diagram) (stage : Stage) (statements : List Statement) (i : Nat) where
  before : List Nat
  blocks : List (List Statement)
  comment : String
  wires : List Wire
  outputs : List Statement
  scope : List Statement
  later : List Statement
  producers : ∀ j ∈ d.producers i, j ∈ (ofDiagram d).stageOrder stage → j ∈ before
  blocks_eq : before.mapM ((ofDiagram d).emitNode stage) = .ok blocks
  wires_eq : (d.entry i).node.inputs.entries.mapM
    (fun input => (ofDiagram d).wire stage (d.entry i) input.1 input.2) = .ok wires
  outputs_eq : (d.entry i).node.design.outputs.entries.mapM
    (fun output => (d.entry i).declaration stage wires output.1 output.2) = .ok outputs
  statements_eq : statements = (blocks.flatten ++ .comment comment ::
    wires.flatMap Wire.statements) ++ (outputs ++ (scope ++ ((ofDiagram d).handOver stage i ++
      later)))

theorem Place.exists_input {statements : List Statement} {i : Nat}
    (q : Place d stage statements i) {name : String} {w : Wire}
    (hf : q.wires.find? (·.port = name) = some w) :
    ∃ port, (name, port) ∈ (d.entry i).node.inputs.entries ∧ w ∈ q.wires ∧
      (ofDiagram d).wire stage (d.entry i) name port = .ok w := by
  obtain ⟨port, hm, hw⟩ := exists_input_of_find q.wires_eq hf
  exact ⟨port, hm, List.mem_of_find?_eq_some hf, hw⟩

theorem exists_place (hd : d.WellFormed) {nodes : List (List Statement)}
    (hn : ((ofDiagram d).stageOrder stage).mapM ((ofDiagram d).emitNode stage) = .ok nodes)
    {i : Nat} (hi : i ∈ (ofDiagram d).stageOrder stage) :
    Nonempty (Place d stage nodes.flatten i) := by
  obtain ⟨before, after, ho⟩ := List.append_of_mem hi
  have hbefore := fun j hj => mem_of_stageOrder (j := j) hd ho hj
  rw [ho] at hn
  obtain ⟨blocks, block, later, hb, hblock, -, rfl⟩ := mapM_append_cons hn
  obtain ⟨wires, outputs, scope, hw, hout, -, rfl⟩ := (emitNode_eq_ok_iff stage i block).1 hblock
  refine ⟨⟨before, blocks, s!"{(d.entry i).node.name} ({(d.entry i).ident})", wires, outputs,
    scope, later.flatten, hbefore, hb, hw, hout, ?_⟩⟩
  simp only [List.flatten_append, List.flatten_cons, List.append_assoc, List.cons_append]
  rfl

end Plan

end ShaderGraph
