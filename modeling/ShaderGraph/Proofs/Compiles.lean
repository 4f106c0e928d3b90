import ShaderGraph.Proofs.Checks

/-!
# Which graphs compile

A graph compiles exactly if it has a master at its root and no cycle below it, if all ports fit
and no two slots write one target, and if the nodes that are emitted have a source for every input
and only use names of their own inputs and outputs (`compiles_iff`). After the checks, emission
fails for a name or an input without a source only (`emit_onlyFails`).
-/

namespace ShaderGraph

/-! ## Words of a node's code -/

theorem eq_append_iff_toList (word start rest : String) :
    word = start ++ rest ↔ word.toList = start.toList ++ rest.toList := by
  rw [← String.toList_append, String.toList_inj]

namespace Reference

theorem ofWord_eq_input_iff (word port : String) :
    ofWord word = .input port ↔ word = "in_" ++ port := by
  rw [eq_append_iff_toList, ofWord]
  split
  · rename_i rest h
    simp [h, ← String.toList_inj]
  all_goals
    rename_i h
    simp_all

theorem ofWord_eq_output_iff (word output : String) :
    ofWord word = .output output ↔ word = "out_" ++ output := by
  rw [eq_append_iff_toList, ofWord]
  split
  · rename_i rest h
    simp [h]
  · rename_i rest h
    simp [h, ← String.toList_inj]
  all_goals
    rename_i h
    simp_all

end Reference

/-- The expressions of all outputs, and the body for a stage. -/
def Design.codeIn (d : Design) (stage : Stage) : List String :=
  d.outputs.values.filterMap Output.expr ++ (d.code stage).body.toList

/-- A word that looks like an input or an output of the node is one. -/
def Node.Spells {ρ : Type} (n : Node ρ) (word : String) : Prop :=
  (∀ port, word = "in_" ++ port → port ∈ n.inputs.keys) ∧
    ∀ output, word = "out_" ++ output → output ∈ n.design.outputs.keys

/-- Every input has a source, and every word of the code for a stage names what the node has. -/
def Node.Emittable {ρ : Type} (n : Node ρ) (stage : Stage) : Prop :=
  (∀ name port, (name, port) ∈ n.inputs.entries → port.source.isSome = true) ∧
    ∀ code ∈ n.design.codeIn stage, ∀ word ∈ Glsl.words code, n.Spells word

theorem Entry.rename_isOk_iff (e : Entry) (stage : Stage) {wires : List Wire}
    (hw : wires.map Wire.port = e.node.inputs.keys) (word : String) :
    (∃ answer, e.rename stage wires word = .ok answer) ↔ e.node.Spells word := by
  simp only [rename, Node.Spells, ← Reference.ofWord_eq_input_iff,
    ← Reference.ofWord_eq_output_iff]
  split
  · rename_i port h
    simp only [h, Reference.input.injEq, reduceCtorEq, false_implies, implies_true, and_true,
      forall_eq']
    rw [← hw]
    split
    · rename_i wire hf
      have := List.find?_some hf
      simp only [decide_eq_true_eq] at this
      simpa using ⟨wire, List.mem_of_find?_eq_some hf, this⟩
    · rename_i hf
      simpa using hf
  · rename_i name h
    simp only [h, Reference.output.injEq, reduceCtorEq, false_implies, implies_true, true_and,
      forall_eq', ← Table.contains_eq_true_iff]
    split_ifs with hc <;> simp [hc]
  · rename_i name h
    simp only [h, reduceCtorEq, false_implies, implies_true, and_self, iff_true]
    split <;> exact ⟨_, rfl⟩
  · rename_i h
    simp [h]

/-! ## Emission -/

namespace Plan

variable {p : Plan}

theorem port_of_wire {stage : Stage} {e : Entry} {name : String} {port : Port Nat} {w : Wire}
    (h : p.wire stage e name port = .ok w) : w.port = name := by
  simp only [wire] at h
  split at h
  · cases h
  · cases h
    rfl
  · cases h
    rfl
  · simp only [bind_eq_ok_iff] at h
    obtain ⟨expr, -, h⟩ := h
    cases h
    rfl

theorem map_port_of_mapM_wire {stage : Stage} {e : Entry} {inputs : List (String × Port Nat)}
    {wires : List Wire}
    (h : inputs.mapM (fun input => p.wire stage e input.1 input.2) = .ok wires) :
    wires.map Wire.port = inputs.map Prod.fst := by
  rw [mapM_eq_ok_iff] at h
  induction h with
  | nil => rfl
  | cons hw _ ih => rw [List.map_cons, List.map_cons, port_of_wire hw, ih]

/-- What is emitted for a node: its inputs, its outputs, its body and what it hands over. -/
theorem emitNode_eq_ok_iff (stage : Stage) (i : Nat) (l : List Statement) :
    p.emitNode stage i = .ok l ↔ ∃ wires outputs scope,
      (p.diagram.entry i).node.inputs.entries.mapM
        (fun input => p.wire stage (p.diagram.entry i) input.1 input.2) = .ok wires ∧
      (p.diagram.entry i).node.design.outputs.entries.mapM
        (fun output => (p.diagram.entry i).declaration stage wires output.1 output.2)
          = .ok outputs ∧
      (p.diagram.entry i).scope stage wires = .ok scope ∧
      l = .comment s!"{(p.diagram.entry i).node.name} ({(p.diagram.entry i).ident})" ::
        (wires.flatMap Wire.statements ++ outputs ++ scope ++ p.handOver stage i) := by
  simp only [emitNode, bind_eq_ok_iff]
  constructor
  · rintro ⟨wires, hw, outputs, ho, scope, hs, h⟩
    cases h
    exact ⟨wires, outputs, scope, hw, ho, hs, rfl⟩
  · rintro ⟨wires, outputs, scope, hw, ho, hs, rfl⟩
    exact ⟨wires, hw, outputs, ho, scope, hs, rfl⟩

theorem declaration_isOk_iff (e : Entry) (stage : Stage) (wires : List Wire) (name : String)
    (output : Output) : (∃ st, e.declaration stage wires name output = .ok st) ↔
      ∀ code ∈ output.expr, ∀ word ∈ Glsl.words code,
        ∃ answer, e.rename stage wires word = .ok answer := by
  rcases output with ⟨kind, _ | code⟩
  · exact iff_of_true ⟨_, rfl⟩ (by simp)
  · simp only [Entry.declaration, Option.mem_def, Option.some.injEq, forall_eq',
      ← Glsl.replaceWords_isOk_iff, bind_eq_ok_iff]
    constructor
    · rintro ⟨_, text, h, -⟩
      exact ⟨text, h⟩
    · rintro ⟨text, h⟩
      exact ⟨_, text, h, rfl⟩

theorem scope_isOk_iff (e : Entry) (stage : Stage) (wires : List Wire) :
    (∃ scope, e.scope stage wires = .ok scope) ↔
      ∀ code ∈ (e.node.design.code stage).body, ∀ word ∈ Glsl.words code,
        ∃ answer, e.rename stage wires word = .ok answer := by
  simp only [Entry.scope]
  rcases (e.node.design.code stage).body with _ | code
  · simp [pure, Except.pure]
  · simp only [Option.mem_def, Option.some.injEq, forall_eq', ← Glsl.replaceWords_isOk_iff,
      bind_eq_ok_iff]
    constructor
    · rintro ⟨_, text, h, -⟩
      exact ⟨text, h⟩
    · rintro ⟨text, h⟩
      exact ⟨_, text, h, rfl⟩

section Fits

variable (hp : p.PortsFit) (hd : p.diagram.WellFormed)
include hp hd

theorem wire_isOk_iff {i : Nat} (hi : i < p.diagram.entries.length) {name : String}
    {port : Port Nat} (hm : (name, port) ∈ (p.diagram.entry i).node.inputs.entries)
    (stage : Stage) :
    (∃ w, p.wire stage (p.diagram.entry i) name port = .ok w) ↔ port.source.isSome = true := by
  simp only [wire]
  split
  · rename_i hs
    rw [hs]
    exact iff_of_false (fun ⟨_, h⟩ => by cases h) (by simp)
  · rename_i hs
    rw [hs]
    exact iff_of_true ⟨_, rfl⟩ rfl
  · rename_i hs
    rw [hs]
    exact iff_of_true ⟨_, rfl⟩ rfl
  · rename_i producer output hs
    obtain ⟨spec, -, -, -, hr⟩ :=
      hp.exists_reference hd hi hm ((port.edge?_eq_some_iff _ _).2 hs)
    rw [hs, hr]
    exact iff_of_true ⟨_, rfl⟩ rfl

theorem emitNode_isOk_iff {i : Nat} (hi : i < p.diagram.entries.length) (stage : Stage) :
    (∃ statements, p.emitNode stage i = .ok statements) ↔
      (p.diagram.entry i).node.Emittable stage := by
  have hwires : (∃ wires, (p.diagram.entry i).node.inputs.entries.mapM
        (fun input => p.wire stage (p.diagram.entry i) input.1 input.2) = .ok wires) ↔
      ∀ name port, (name, port) ∈ (p.diagram.entry i).node.inputs.entries →
        port.source.isSome = true := by
    rw [mapM_isOk_iff]
    constructor
    · exact fun h name port hm => (wire_isOk_iff hp hd hi hm stage).1 (h _ hm)
    · exact fun h input hm => (wire_isOk_iff hp hd hi hm stage).2 (h _ _ hm)
  have hcode : ∀ wires, wires.map Wire.port = (p.diagram.entry i).node.inputs.keys →
      ((∃ outputs, (p.diagram.entry i).node.design.outputs.entries.mapM (fun output =>
          (p.diagram.entry i).declaration stage wires output.1 output.2) = .ok outputs) ∧
        (∃ scope, (p.diagram.entry i).scope stage wires = .ok scope) ↔
      ∀ code ∈ (p.diagram.entry i).node.design.codeIn stage, ∀ word ∈ Glsl.words code,
        (p.diagram.entry i).node.Spells word) := by
    intro wires hw
    simp only [mapM_isOk_iff, declaration_isOk_iff, scope_isOk_iff, Entry.rename_isOk_iff _ _ hw,
      Design.codeIn, List.forall_mem_append, Table.values, List.mem_filterMap, List.mem_map]
    refine and_congr ⟨?_, fun h output hm code hc => h code ⟨_, ⟨output, hm, rfl⟩, hc⟩⟩
      ⟨fun h code hc => h code (by simpa using hc), fun h code hc => h code (by simpa using hc)⟩
    rintro h code ⟨_, ⟨output, hm, rfl⟩, hc⟩
    exact h output hm code hc
  simp only [emitNode_eq_ok_iff, Node.Emittable, ← hwires]
  constructor
  · rintro ⟨_, wires, outputs, scope, hw, ho, hs, -⟩
    exact ⟨⟨wires, hw⟩, (hcode wires (map_port_of_mapM_wire hw)).1 ⟨⟨outputs, ho⟩, scope, hs⟩⟩
  · rintro ⟨⟨wires, hw⟩, h⟩
    obtain ⟨⟨outputs, ho⟩, scope, hs⟩ := (hcode wires (map_port_of_mapM_wire hw)).2 h
    exact ⟨_, wires, outputs, scope, hw, ho, hs, rfl⟩

theorem slotValue_isOk {name : String} {port : Port Nat}
    (hm : (name, port) ∈ p.diagram.root.node.inputs.entries) (stage : Stage) :
    ∃ value, p.slotValue stage name port = .ok value := by
  simp only [slotValue]
  split
  · exact ⟨_, rfl⟩
  · exact ⟨_, rfl⟩
  · exact ⟨_, rfl⟩
  · rename_i producer output hs
    obtain ⟨spec, -, -, -, hr⟩ :=
      hp.exists_reference hd hd.nonempty hm ((port.edge?_eq_some_iff _ _).2 hs)
    rw [hr]
    exact ⟨_, rfl⟩

theorem emitSlot_isOk (stage : Stage) (name : String) (slot : Slot) :
    ∃ statements, p.emitSlot stage name slot = .ok statements := by
  simp only [emitSlot]
  split_ifs
  · exact ⟨_, rfl⟩
  · rcases hg : p.diagram.root.node.inputs.get? name with _ | port
    · exact ⟨_, rfl⟩
    · obtain ⟨value, hv⟩ := slotValue_isOk hp hd ((Table.get?_eq_some_iff _ _ _).1 hg) stage
      simp only [hv]
      rcases value with _ | value
      · exact ⟨_, rfl⟩
      · exact ⟨_, rfl⟩

end Fits

/-- A stage is the statements of its nodes and then those of the root's slots. -/
theorem emit_eq_ok_iff (stage : Stage) (source : StageSource) :
    p.emit stage = .ok source ↔ ∃ nodes slots,
      (p.stageOrder stage).mapM (p.emitNode stage) = .ok nodes ∧
      p.diagram.root.node.design.slots.entries.mapM
        (fun slot => p.emitSlot stage slot.1 slot.2) = .ok slots ∧
      source = ⟨(p.stageOrder stage).filterMap p.uniform?, p.varyings, p.headers stage,
        nodes.flatten ++ slots.flatten⟩ := by
  simp only [emit, bind_eq_ok_iff]
  constructor
  · rintro ⟨nodes, hn, slots, hs, h⟩
    cases h
    exact ⟨nodes, slots, hn, hs, rfl⟩
  · rintro ⟨nodes, slots, hn, hs, rfl⟩
    exact ⟨nodes, hn, slots, hs, rfl⟩

theorem lt_of_mem_stageOrder (hd : p.diagram.WellFormed) {stage : Stage} {i : Nat}
    (hi : i ∈ p.stageOrder stage) : i < p.diagram.entries.length :=
  hd.mem_order.1 (List.mem_filter.1 hi).1

theorem emit_isOk_iff (hp : p.PortsFit) (hd : p.diagram.WellFormed) (stage : Stage) :
    (∃ source, p.emit stage = .ok source) ↔
      ∀ i ∈ p.stageOrder stage, (p.diagram.entry i).node.Emittable stage := by
  have hnodes : (∃ nodes, (p.stageOrder stage).mapM (p.emitNode stage) = .ok nodes) ↔
      ∀ i ∈ p.stageOrder stage, (p.diagram.entry i).node.Emittable stage := by
    rw [mapM_isOk_iff]
    exact forall₂_congr fun i hi => emitNode_isOk_iff hp hd (lt_of_mem_stageOrder hd hi) stage
  obtain ⟨slots, hslots⟩ := (mapM_isOk_iff
    (fun slot => p.emitSlot stage slot.1 slot.2) p.diagram.root.node.design.slots.entries).2
    fun slot _ => emitSlot_isOk hp hd stage slot.1 slot.2
  rw [← hnodes]
  simp only [emit_eq_ok_iff]
  constructor
  · rintro ⟨_, nodes, -, hn, -⟩
    exact ⟨nodes, hn⟩
  · rintro ⟨nodes, hn⟩
    exact ⟨_, nodes, slots, hn, hslots, rfl⟩

/-! ## Failures of emission -/

end Plan

/-- The error is that a port has no source or is not there. -/
def CompileError.IsUnresolved (e : CompileError) : Prop :=
  ∃ node port stage, e = .unresolvedPort node port stage

theorem Entry.rename_onlyFails (e : Entry) (stage : Stage) (wires : List Wire) (word : String) :
    OnlyFails CompileError.IsUnresolved (e.rename stage wires word) := by
  simp only [rename]
  split
  · split
    · exact .ok _
    · exact .error ⟨_, _, _, rfl⟩
  · split_ifs
    · exact .ok _
    · exact .error ⟨_, _, _, rfl⟩
  · split
    · exact .ok _
    · exact .ok _
  · exact .ok _

namespace Plan

variable {p : Plan} (hp : p.PortsFit) (hd : p.diagram.WellFormed)
include hp hd

theorem wire_onlyFails {i : Nat} (hi : i < p.diagram.entries.length) {name : String}
    {port : Port Nat} (hm : (name, port) ∈ (p.diagram.entry i).node.inputs.entries)
    (stage : Stage) :
    OnlyFails CompileError.IsUnresolved (p.wire stage (p.diagram.entry i) name port) := by
  rcases hs : port.source with _ | source
  · simp only [wire, hs]
    exact .error ⟨_, _, _, rfl⟩
  · exact .of_isOk ((wire_isOk_iff hp hd hi hm stage).2 (by simp [hs]))

theorem emitNode_onlyFails {i : Nat} (hi : i < p.diagram.entries.length) (stage : Stage) :
    OnlyFails CompileError.IsUnresolved (p.emitNode stage i) := by
  refine .bind (.mapM fun input hm => wire_onlyFails hp hd hi hm stage) fun wires _ => ?_
  have hrename := (p.diagram.entry i).rename_onlyFails stage wires
  refine .bind (.mapM fun output _ => ?_) fun outputs _ => .bind ?_ fun scope _ => .ok _
  · rcases output with ⟨name, kind, _ | code⟩
    · exact .ok _
    · exact .bind (Glsl.replaceWords_onlyFails hrename code) fun _ _ => .ok _
  · simp only [Entry.scope]
    split
    · exact .bind (Glsl.replaceWords_onlyFails hrename _) fun _ _ => .ok _
    · exact .ok _

/-- Once the ports fit, emission can only fail for a port that has no source or is not there. -/
theorem emit_onlyFails (stage : Stage) : OnlyFails CompileError.IsUnresolved (p.emit stage) := by
  refine .bind (.mapM fun i hi => emitNode_onlyFails hp hd (lt_of_mem_stageOrder hd hi) stage)
    fun nodes _ => .bind (.mapM fun slot _ => ?_) fun slots _ => .ok _
  exact .of_isOk (emitSlot_isOk hp hd stage slot.1 slot.2)

end Plan

/-! ## Compilation -/

theorem Plan.compile_eq_ok_iff (p : Plan) (shader : Shader) :
    p.compile = .ok shader ↔ p.checkPorts = .ok () ∧ p.checkSlots = .ok () ∧
      p.emit .vertex = .ok shader.vertex ∧ p.emit .fragment = .ok shader.fragment ∧
      shader.uniforms = p.uniforms := by
  simp only [compile, bind_eq_ok_iff]
  constructor
  · rintro ⟨_, hp, _, hs, vertex, hv, fragment, hf, h⟩
    cases h
    exact ⟨hp, hs, hv, hf, rfl⟩
  · rintro ⟨hp, hs, hv, hf, hu⟩
    exact ⟨_, hp, _, hs, _, hv, _, hf, by rw [← hu]; rfl⟩

theorem Design.isMaster_iff (d : Design) : d.isMaster = true ↔ d.slots.entries ≠ [] := by
  rw [isMaster, Bool.not_eq_true', Bool.eq_false_iff, ne_eq, Table.isEmpty_iff]

namespace Store

variable (s : Store) (root : NodeId)

theorem compile_eq_ok_iff (shader : Shader) :
    s.compile root = .ok shader ↔ (s.design root).isMaster = true ∧
      ∃ w, Walk.discover s root = .ok w ∧ (Plan.ofDiagram w.diagram).compile = .ok shader := by
  by_cases h : (s.design root).isMaster = true
  · simp only [compile, h, true_and, ← mapError_eq_ok_iff CompileError.graphCycle]
    exact bind_eq_ok_iff _ _ _
  · refine iff_of_false (fun hc => ?_) fun hc => h hc.1
    simp only [compile, h] at hc
    cases hc

/-- The slot of a name is the root's, and its input has a source. -/
def Wired (name : String) (slot : Slot) : Prop :=
  (name, slot) ∈ (s.design root).slots.entries ∧
    ∃ port, (name, port) ∈ (s.get root).inputs.entries ∧ port.source.isSome = true

/-- What a graph must be like to compile. -/
structure Compilable : Prop where
  master : (s.design root).slots.entries ≠ []
  acyclic : s.Acyclic root
  fits : ∀ n, s.Reaches root n → ∀ name port, (name, port) ∈ (s.get n).inputs.entries →
    port.Fits s.design
  apart : ∀ name slot name' slot', s.Wired root name slot → s.Wired root name' slot' →
    slot.target = slot'.target → name = name'
  emittable : ∀ w, Walk.discover s root = .ok w → ∀ n ∈ w.ids,
    (s.design n).isMaster = false → ∀ stage, (w.share n).stages.contains stage = true →
      (s.get n).Emittable stage

end Store

theorem Node.emittable_map {ρ σ : Type} (f : ρ → σ) (n : Node ρ) (stage : Stage) :
    (n.map f).Emittable stage ↔ n.Emittable stage := by
  refine and_congr ?_ (by simp only [Spells, Node.map, Table.keys_map])
  simp only [mem_inputs_map]
  constructor
  · intro h name port hm
    simpa [Port.map] using h name _ ⟨port, hm, rfl⟩
  · rintro h name _ ⟨port, hm, rfl⟩
    simpa [Port.map] using h name port hm

namespace Walk.Explores

variable {s : Store} {root : NodeId} {w : Walk} (hw : Explores s root w)
include hw

theorem node_idxOf {n : NodeId} (hn : n ∈ w.ids) :
    (w.diagram.entry (w.ids.idxOf n)).node = (s.get n).toNode.map w.ids.idxOf := by
  rw [hw.entry_idxOf hn]
  rfl

theorem root_node : w.diagram.root.node = (s.get root).toNode.map w.ids.idxOf := by
  rw [Diagram.root, ← hw.idxOf_root, hw.node_idxOf hw.root_mem]

theorem fits_idxOf {n : NodeId} (hn : n ∈ w.ids) {name : String} {port : Port NodeId}
    (hm : (name, port) ∈ (s.get n).inputs.entries) :
    (port.map w.ids.idxOf).Fits w.diagram.design ↔ port.Fits s.design := by
  rw [Port.fits_map]
  refine Port.fits_congr _ fun producer output he => hw.design_idxOf (hw.producer_mem hn ?_)
  exact (Node.mem_producers _ _).2 ⟨name, output, port, hm, he⟩

theorem portsFit_iff : (Plan.ofDiagram w.diagram).PortsFit ↔
    ∀ n, s.Reaches root n → ∀ name port, (name, port) ∈ (s.get n).inputs.entries →
      port.Fits s.design := by
  simp only [Plan.PortsFit, ← hw.mem_ids]
  constructor
  · intro h n hn name port hm
    refine (hw.fits_idxOf hn hm).1 (h _ (hw.idxOf_lt hn) name _ ?_)
    change _ ∈ (w.diagram.entry _).node.inputs.entries
    rw [hw.node_idxOf hn, Node.mem_inputs_map]
    exact ⟨port, hm, rfl⟩
  · intro h i hi name port hm
    obtain ⟨n, hn, rfl⟩ := hw.exists_idxOf hi
    change _ ∈ (w.diagram.entry _).node.inputs.entries at hm
    rw [hw.node_idxOf hn, Node.mem_inputs_map] at hm
    obtain ⟨port, hm, rfl⟩ := hm
    exact (hw.fits_idxOf hn hm).2 (h n hn name port hm)

theorem mem_wiredSlots (name : String) (slot : Slot) :
    (name, slot) ∈ (Plan.ofDiagram w.diagram).wiredSlots ↔ s.Wired root name slot := by
  have hroot : (Plan.ofDiagram w.diagram).diagram.root.node = _ := hw.root_node
  simp only [Plan.wiredSlots, hroot, List.mem_filter, Store.Wired]
  refine and_congr Iff.rfl ?_
  simp only [Node.map, Table.get?_map, ← Table.get?_eq_some_iff]
  rcases (s.get root).inputs.get? name with _ | port
  · simp
  · simp [Port.map]

theorem slotsApart_iff : (Plan.ofDiagram w.diagram).SlotsApart ↔
    ∀ name slot name' slot', s.Wired root name slot → s.Wired root name' slot' →
      slot.target = slot'.target → name = name' := by
  have hkeys : ((Plan.ofDiagram w.diagram).wiredSlots.map Prod.fst).Nodup :=
    (Table.nodup _).sublist (List.filter_sublist.map _)
  simp only [Plan.SlotsApart, ← hw.mem_wiredSlots]
  constructor
  · intro h name slot name' slot' hm hm' he
    exact congrArg Prod.fst (List.inj_on_of_nodup_map h hm hm' he)
  · intro h
    refine List.Nodup.map_on ?_ (List.Nodup.of_map _ hkeys)
    rintro ⟨name, slot⟩ hm ⟨name', slot'⟩ hm' he
    exact List.inj_on_of_nodup_map hkeys hm hm' (h _ _ _ _ hm hm' he)

theorem emittable_iff : (∀ stage, ∀ i ∈ (Plan.ofDiagram w.diagram).stageOrder stage,
      (w.diagram.entry i).node.Emittable stage) ↔
    ∀ n ∈ w.ids, (s.design n).isMaster = false → ∀ stage,
      (w.share n).stages.contains stage = true → (s.get n).Emittable stage := by
  have hmem : ∀ stage, ∀ n ∈ w.ids,
      w.ids.idxOf n ∈ (Plan.ofDiagram w.diagram).stageOrder stage ↔
        (w.share n).stages.contains stage = true ∧ (s.design n).isMaster = false := by
    intro stage n hn
    have horder : w.ids.idxOf n ∈ w.diagram.order := hw.wellFormed.mem_order.2 (hw.idxOf_lt hn)
    rw [Plan.stageOrder, List.mem_filter, Bool.and_eq_true, Bool.not_eq_true']
    change _ ∈ w.diagram.order ∧ (w.share n).stages.contains stage = true ∧
      (w.diagram.design (w.ids.idxOf n)).isMaster = false ↔ _
    rw [hw.design_idxOf hn]
    exact and_iff_right horder
  constructor
  · intro h n hn hmaster stage hstage
    have := h stage _ ((hmem stage n hn).2 ⟨hstage, hmaster⟩)
    rwa [hw.node_idxOf hn, Node.emittable_map] at this
  · intro h stage i hi
    obtain ⟨n, hn, rfl⟩ := hw.exists_idxOf (Plan.lt_of_mem_stageOrder hw.wellFormed hi)
    obtain ⟨hstage, hmaster⟩ := (hmem stage n hn).1 hi
    rw [hw.node_idxOf hn, Node.emittable_map]
    exact h n hn hmaster stage hstage

end Walk.Explores

namespace Store

variable (s : Store) (root : NodeId)

theorem compile_isOk_iff_walk {w : Walk} (hd : Walk.discover s root = .ok w) :
    (∃ shader, s.compile root = .ok shader) ↔ (s.design root).isMaster = true ∧
      (Plan.ofDiagram w.diagram).PortsFit ∧ (Plan.ofDiagram w.diagram).SlotsApart ∧
      ∀ stage, ∃ source, (Plan.ofDiagram w.diagram).emit stage = .ok source := by
  simp only [compile_eq_ok_iff, hd, Except.ok.injEq, exists_eq_left', Plan.compile_eq_ok_iff,
    Plan.checkPorts_eq_ok_iff, Plan.checkSlots_eq_ok_iff]
  constructor
  · rintro ⟨shader, hm, hp, hs, hv, hf, -⟩
    refine ⟨hm, hp, hs, fun stage => ?_⟩
    cases stage with
    | vertex => exact ⟨_, hv⟩
    | fragment => exact ⟨_, hf⟩
  · rintro ⟨hm, hp, hs, h⟩
    obtain ⟨vertex, hv⟩ := h .vertex
    obtain ⟨fragment, hf⟩ := h .fragment
    exact ⟨⟨vertex, fragment, _⟩, hm, hp, hs, hv, hf, rfl⟩

/-- A graph compiles exactly if it is `Compilable`. After discovery and the two checks, emission
fails with an unresolved port only, and no edge fails to be read. -/
theorem compiles_iff :
    ((∃ shader, s.compile root = .ok shader) ↔ s.Compilable root) ∧
      ∀ w, Walk.discover s root = .ok w →
        (Plan.ofDiagram w.diagram).checkPorts = .ok () →
        (Plan.ofDiagram w.diagram).checkSlots = .ok () →
        (∀ stage e, (Plan.ofDiagram w.diagram).emit stage = .error e → e.IsUnresolved) ∧
        ∀ consumer ∈ w.diagram.entries, ∀ name port producer output,
          (name, port) ∈ consumer.node.inputs.entries →
          port.source = some (.edge producer output) → ∀ stage, ∃ expr,
            (Plan.ofDiagram w.diagram).reference stage consumer name port producer output
              = .ok expr := by
  refine ⟨⟨?_, fun h => ?_⟩, fun w hd hports _ => ?_⟩
  · rintro ⟨shader, hc⟩
    obtain ⟨hmaster, w, hd, -⟩ := (s.compile_eq_ok_iff root shader).1 hc
    obtain ⟨-, hp, hs, he⟩ := (s.compile_isOk_iff_walk root hd).1 ⟨shader, hc⟩
    have hw := Walk.discover_ok hd
    refine ⟨(Design.isMaster_iff _).1 hmaster, Walk.discover_isOk_iff.1 ⟨w, hd⟩,
      hw.portsFit_iff.1 hp, hw.slotsApart_iff.1 hs, fun w' hd' => ?_⟩
    obtain rfl : w = w' := Except.ok.inj (hd.symm.trans hd')
    exact hw.emittable_iff.1 fun stage => (Plan.emit_isOk_iff hp hw.wellFormed stage).1 (he stage)
  · obtain ⟨w, hd⟩ := Walk.discover_isOk_iff.2 h.acyclic
    have hw := Walk.discover_ok hd
    have hp := hw.portsFit_iff.2 h.fits
    have he := hw.emittable_iff.2 (h.emittable w hd)
    refine (s.compile_isOk_iff_walk root hd).2 ⟨(Design.isMaster_iff _).2 h.master, hp,
      hw.slotsApart_iff.2 h.apart, fun stage => ?_⟩
    exact (Plan.emit_isOk_iff hp hw.wellFormed stage).2 (he stage)
  · have hw := Walk.discover_ok hd
    have hp := (Plan.checkPorts_eq_ok_iff _).1 hports
    refine ⟨fun stage => Plan.emit_onlyFails hp hw.wellFormed stage, ?_⟩
    intro consumer hm name port producer output hin hs stage
    obtain ⟨i, hi, rfl⟩ := List.getElem_of_mem hm
    have hentry : (Plan.ofDiagram w.diagram).diagram.entry i = w.diagram.entries[i] := by
      simp [Plan.ofDiagram, Diagram.entry, List.getD_eq_getElem?_getD, hi]
    obtain ⟨spec, -, -, -, hr⟩ := hp.exists_reference hw.wellFormed hi
      (hentry.symm ▸ hin) ((port.edge?_eq_some_iff _ _).2 hs)
    exact ⟨_, hr stage _ name⟩

end Store

theorem pulse_compiles : ∃ shader, pulse.compile ⟨3⟩ = .ok shader := by
  have h : (pulse.compile ⟨3⟩).toBool = true := by decide +kernel
  exact exists_of_toBool h

theorem compiles_iff_pulse : pulse.Compilable ⟨3⟩ ∧ ∃ w, Walk.discover pulse ⟨3⟩ = .ok w ∧
    ∀ stage e, (Plan.ofDiagram w.diagram).emit stage = .error e → e.IsUnresolved := by
  obtain ⟨shader, hc⟩ := pulse_compiles
  obtain ⟨hcompiles, hfails⟩ := Store.compiles_iff pulse ⟨3⟩
  obtain ⟨-, w, hdisc, hplan⟩ := (pulse.compile_eq_ok_iff ⟨3⟩ shader).1 hc
  obtain ⟨hports, hslots, -⟩ := (Plan.compile_eq_ok_iff _ _).1 hplan
  exact ⟨hcompiles.1 ⟨shader, hc⟩, w, hdisc, (hfails w hdisc hports hslots).1⟩

end ShaderGraph
