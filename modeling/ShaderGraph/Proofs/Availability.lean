import ShaderGraph.Proofs.SourceText

/-!
# Variables are declared before they are read

Whatever a shader reads along an edge is a variable that is there already, up to widening: the
block of the producer stands before the reader and declares it, or it is a varying of the fragment
stage (`edges_read_available`). The text that is read has the type of the port.
-/

namespace ShaderGraph

/-- A text has a type and is a variable of some type, or it widens a variable to its own type. -/
inductive Glsl.Carries (name type : String) : String → String → Prop
  | same : Carries name type name type
  | widened {kind : Kind} (hfloat : type = Kind.float.type) (hkind : kind ≠ .float) :
    Carries name type (kind.type ++ "(" ++ name ++ ")") kind.type

/-- What a port accepts is read with the type of the port. -/
theorem Glsl.carries_widen (name : String) {kind source : Kind} {broadcast : Bool}
    (h : kind.accepts source broadcast = true) :
    Carries name source.type (widen name source kind) kind.type := by
  simp only [widen]
  split_ifs with hw
  · exact .widened (congrArg Kind.type hw.1) hw.2
  · have : source.type = kind.type := by
      cases kind <;> cases source <;> simp_all [Kind.accepts, Kind.type]
    rw [this]
    exact .same

namespace Plan

/-- The variables that hold an output of a producer behind `earlier`, with their types. -/
inductive Available (p : Plan) (stage : Stage) (source : StageSource) (earlier : List Statement)
    (producer : Nat) (output : String) : String → String → Prop
  | declared {block : List Statement} {type init : String}
    (hmem : producer ∈ p.stageOrder stage) (hblock : p.emitNode stage producer = .ok block)
    (hearlier : block <:+: earlier)
    (hdecl : .declare type ((p.diagram.entry producer).outputName output) init ∈ block) :
    Available p stage source earlier producer output
      ((p.diagram.entry producer).outputName output) type
  | handedOver {type : String} (hstage : stage = .fragment)
    (hvarying : ⟨type, (p.diagram.entry producer).varyingName output⟩ ∈ source.varyings) :
    Available p stage source earlier producer output
      ((p.diagram.entry producer).varyingName output) type

/-- A text of the type of a kind reads an output of a producer behind `earlier`. -/
def ReadsAvailable (p : Plan) (stage : Stage) (source : StageSource) (earlier : List Statement)
    (producer : Nat) (output : String) (kind : Kind) (text : String) : Prop :=
  ∃ spec name, (p.diagram.design producer).outputs.get? output = some spec ∧
    p.Available stage source earlier producer output name spec.kind.type ∧
    Glsl.Carries name spec.kind.type text kind.type

section Stages

variable {d : Diagram} {stage : Stage} {source : StageSource}
variable (hd : d.WellFormed)
variable (hpure : ∀ i < d.entries.length,
  (d.design i).isMaster = false ∨ (d.design i).outputs.entries = [])

include hpure in
theorem isMaster_of_output {i : Nat} (hi : i < d.entries.length) {o : String} {spec : Output}
    (hspec : (d.design i).outputs.get? o = some spec) : (d.design i).isMaster = false := by
  refine (hpure i hi).resolve_right fun hnil => ?_
  have hm := (Table.get?_eq_some_iff _ _ _).1 hspec
  rw [hnil] at hm
  cases hm

include hd hpure in
theorem available_of_readsIn {i : Nat} (hi : i < d.entries.length) {name : String} {j : Nat}
    {o : String} (he : (d.entry i).node.Edge name j o)
    (hr : (d.design i).ReadsIn name ((ofDiagram d).share i).stages stage)
    {spec : Output} (hspec : (d.design j).outputs.get? o = some spec)
    (hv : source.varyings = (ofDiagram d).varyings) {before : List Nat}
    {blocks : List (List Statement)} {earlier : List Statement}
    (hb : before.mapM ((ofDiagram d).emitNode stage) = .ok blocks)
    (hpre : blocks.flatten <+: earlier)
    (hbefore : j ∈ (ofDiagram d).stageOrder stage → j ∈ before) :
    (ofDiagram d).Available stage source earlier j o ((ofDiagram d).variableOf stage j o)
      spec.kind.type := by
  have hj : j < d.entries.length := hd.edge_lt hi he
  have hcarried := carried_of_readsIn hd hi he hr
  rw [variableOf_of_readsIn hd hi he hr]
  split_ifs at hcarried ⊢ with h
  · refine .handedOver h.1 ?_
    rw [hv]
    exact mem_varyings_iff.2 ⟨j, hj, o, hcarried.1, spec, hspec, rfl⟩
  · have hmem := mem_stageOrder.2
      ⟨hd.mem_order.2 hj, hcarried.1, isMaster_of_output hpure hj hspec⟩
    obtain ⟨block, hblock, hok⟩ := mem_of_mapM hb (hbefore hmem)
    obtain ⟨init, hdecl⟩ := declare_mem_of_emitNode hok hspec
    exact .declared hmem hok ((List.infix_of_mem_flatten hblock).trans hpre.isInfix) hdecl

variable (hp : (ofDiagram d).PortsFit) (hsource : (ofDiagram d).emit stage = .ok source)

include hd hpure hp hsource in
/-- Behind the blocks before its own, a node has all that it reads along edges. -/
theorem node_reads_available {i : Nat} (hi : i ∈ (ofDiagram d).stageOrder stage) :
    ∃ earlier block later, source.statements = earlier ++ block ++ later ∧
      (ofDiagram d).emitNode stage i = .ok block ∧
      ∀ name port producer output, (name, port) ∈ (d.entry i).node.inputs.entries →
        port.source = some (.edge producer output) → ∃ text,
          (ofDiagram d).Substitutes stage i name text ∧
          (ofDiagram d).ReadsAvailable stage source earlier producer output port.kind text := by
  obtain ⟨before, after, ho⟩ := List.append_of_mem hi
  obtain ⟨blocks, block, later, hb, hblock, hst⟩ := emit_split hsource ho
  have hlt := lt_of_mem_stageOrder hd hi
  refine ⟨_, block, later, hst, hblock, fun name port producer output hm hs => ?_⟩
  have he := (port.edge?_eq_some_iff _ _).2 hs
  obtain ⟨spec, hspec, haccepts, hsub⟩ := hp.exists_substitute hd hlt hblock hm hs
  have hin : (d.entry i).node.Edge name producer output := ⟨port, hm, he⟩
  have hreads := readsIn_of_mem_stageOrder hi name
  refine ⟨_, hsub, spec, _, hspec,
    available_of_readsIn hd hpure hlt hin hreads hspec ?_ hb (List.prefix_refl _) ?_,
    Glsl.carries_widen _ haccepts⟩
  · obtain ⟨_, _, -, -, rfl⟩ := (emit_eq_ok_iff stage source).1 hsource
    rfl
  · exact mem_of_stageOrder hd ho ((Node.mem_producers _ _).2 ⟨name, output, hin⟩)

theorem emitSlot_of_edge {p : Plan} {name : String} {slot : Slot} (hst : slot.stage = stage)
    {port : Port Nat} (hm : (name, port) ∈ p.diagram.root.node.inputs.entries) {producer : Nat}
    {output text : String} (hs : port.source = some (.edge producer output))
    (href : p.reference stage p.diagram.root name port producer output = .ok text) :
    p.slotValue stage name port = .ok (some text) ∧
      p.emitSlot stage name slot = .ok [.assign slot.target (slot.expression text)] := by
  have hvalue : p.slotValue stage name port = .ok (some text) := by
    simp only [slotValue, hs, href]
    rfl
  refine ⟨hvalue, ?_⟩
  simp only [emitSlot, hst, ne_eq, not_true_eq_false, if_false,
    (Table.get?_eq_some_iff _ _ _).2 hm, hvalue]
  rfl

include hd hpure hp hsource in
/-- Behind the blocks of all nodes, a slot of the stage has what it reads along an edge. -/
theorem slot_reads_available (hmaster : (d.design 0).isMaster = true) {name : String}
    {slot : Slot} (hslot : (name, slot) ∈ (d.design 0).slots.entries) (hst : slot.stage = stage)
    {port : Port Nat} (hm : (name, port) ∈ d.root.node.inputs.entries) {producer : Nat}
    {output : String} (hs : port.source = some (.edge producer output)) :
    ∃ text expr earlier later,
      source.statements = earlier ++ .assign slot.target expr :: later ∧
      Slot.Fills slot.template.toList text.toList expr.toList ∧
      (ofDiagram d).slotValue stage name port = .ok (some text) ∧
      (ofDiagram d).ReadsAvailable stage source earlier producer output port.kind text := by
  have he := (port.edge?_eq_some_iff _ _).2 hs
  obtain ⟨spec, hspec, -, haccepts, href⟩ := hp.exists_reference hd hd.nonempty hm he
  obtain ⟨hvalue, hemit⟩ := emitSlot_of_edge hst hm hs (href stage _ name)
  obtain ⟨nodes, slots, hn, hslots, rfl⟩ := (emit_eq_ok_iff stage source).1 hsource
  obtain ⟨before, after, hsplit⟩ := List.append_of_mem hslot
  change (d.design 0).slots.entries.mapM _ = _ at hslots
  rw [hsplit] at hslots
  obtain ⟨before', assignment, after', -, ha, -, rfl⟩ := mapM_append_cons hslots
  cases hemit.symm.trans ha
  have hreads : (d.design 0).ReadsIn name ((ofDiagram d).share 0).stages stage := by
    rw [Design.ReadsIn, hmaster]
    exact ⟨slot, (Table.get?_eq_some_iff _ _ _).2 hslot, hst⟩
  refine ⟨_, _, nodes.flatten ++ before'.flatten, after'.flatten, by simp,
    slot.fills_expression _, hvalue, spec, _, hspec, available_of_readsIn hd hpure hd.nonempty
      ⟨port, hm, he⟩ hreads hspec rfl hn (List.prefix_append _ _) id, Glsl.carries_widen _ haccepts⟩

end Stages

end Plan

/-- If no instance below a root has both slots and outputs, no node of the walk has. -/
theorem Walk.Explores.pure_entries {s : Store} {root : NodeId} {w : Walk}
    (hw : Walk.Explores s root w)
    (hpure : ∀ n, s.Reaches root n →
      (s.design n).slots.entries = [] ∨ (s.design n).outputs.entries = []) :
    ∀ i < w.diagram.entries.length,
      (w.diagram.design i).isMaster = false ∨ (w.diagram.design i).outputs.entries = [] := by
  intro i hi
  obtain ⟨n, hn, rfl⟩ := hw.exists_idxOf hi
  rw [hw.design_idxOf hn]
  refine (hpure n ((hw.mem_ids n).1 hn)).imp_left fun hnil => ?_
  rw [Design.isMaster, (Table.isEmpty_iff _).2 hnil]
  rfl

/-- A graph without a master that has outputs reads only what is there. In both stages, what stands
in the block of a node for an input with an edge, and in the assignment of a slot for one, is a
variable with the output's type that is declared before or handed over, and it has the type of the
port. What is handed over has a line at the top of the source. -/
theorem Store.edges_read_available {s : Store} {root : NodeId} {shader : Shader}
    (hc : s.compile root = .ok shader)
    (hpure : ∀ n, s.Reaches root n →
      (s.design n).slots.entries = [] ∨ (s.design n).outputs.entries = []) :
    ∃ w, Walk.discover s root = .ok w ∧ ∀ stage,
      StageSource.Declares (shader.source stage) (shader.stage stage).uniforms
        (shader.stage stage).varyings (shader.stage stage).headers ∧
      (∀ i ∈ (Plan.ofDiagram w.diagram).stageOrder stage, ∃ earlier block later,
        (shader.stage stage).statements = earlier ++ block ++ later ∧
        (Plan.ofDiagram w.diagram).emitNode stage i = .ok block ∧
        ∀ name port producer output,
          (name, port) ∈ (w.diagram.entry i).node.inputs.entries →
          port.source = some (.edge producer output) → ∃ text,
            (Plan.ofDiagram w.diagram).Substitutes stage i name text ∧
            (Plan.ofDiagram w.diagram).ReadsAvailable stage (shader.stage stage) earlier producer
              output port.kind text) ∧
      ∀ name slot port producer output, (name, slot) ∈ (s.design root).slots.entries →
        slot.stage = stage → (name, port) ∈ w.diagram.root.node.inputs.entries →
        port.source = some (.edge producer output) → ∃ text expr earlier later,
          (shader.stage stage).statements = earlier ++ .assign slot.target expr :: later ∧
          Slot.Fills slot.template.toList text.toList expr.toList ∧
          (Plan.ofDiagram w.diagram).slotValue stage name port = .ok (some text) ∧
          (Plan.ofDiagram w.diagram).ReadsAvailable stage (shader.stage stage) earlier producer
            output port.kind text := by
  obtain ⟨hmaster, w, hdisc, hplan⟩ := (s.compile_eq_ok_iff root shader).1 hc
  have hw := Walk.discover_ok hdisc
  have hd := hw.wellFormed
  have hp := Plan.portsFit_of_compile hplan
  have hdesign := hw.design_zero
  have hpure' := hw.pure_entries hpure
  refine ⟨w, hdisc, fun stage => ?_⟩
  have hsource := Plan.emit_of_compile hplan stage
  refine ⟨shader.declares_source stage,
    fun i hi => Plan.node_reads_available hd hpure' hp hsource hi, ?_⟩
  intro name slot port producer output hslot hst hm hs
  exact Plan.slot_reads_available hd hpure' hp hsource (hdesign ▸ hmaster) (hdesign ▸ hslot) hst
    hm hs

theorem edges_read_available_pulse : ∃ shader w, pulse.compile ⟨3⟩ = .ok shader ∧
    Walk.discover pulse ⟨3⟩ = .ok w ∧
    ∀ stage, ∀ i ∈ (Plan.ofDiagram w.diagram).stageOrder stage, ∃ earlier block later,
      (shader.stage stage).statements = earlier ++ block ++ later ∧
      ∀ name port producer output, (name, port) ∈ (w.diagram.entry i).node.inputs.entries →
        port.source = some (.edge producer output) → ∃ text,
          (Plan.ofDiagram w.diagram).Substitutes stage i name text ∧
          (Plan.ofDiagram w.diagram).ReadsAvailable stage (shader.stage stage) earlier producer
            output port.kind text := by
  obtain ⟨shader, hc⟩ := pulse_compiles
  obtain ⟨w, hd, hw⟩ := Store.edges_read_available hc fun n _ => by
    rcases n with ⟨_ | _ | _ | _ | _⟩
    · exact .inl rfl
    · exact .inl rfl
    · exact .inl rfl
    · exact .inr rfl
    · exact .inl rfl
  refine ⟨shader, w, hc, hd, fun stage i hi => ?_⟩
  obtain ⟨-, hblocks, -⟩ := hw stage
  obtain ⟨earlier, block, later, hst, -, hedges⟩ := hblocks i hi
  exact ⟨earlier, block, later, hst, hedges⟩

end ShaderGraph
