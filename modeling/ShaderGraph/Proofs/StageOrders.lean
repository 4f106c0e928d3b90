import ShaderGraph.Proofs.Linkage
import ShaderGraph.Proofs.UniformKeys

/-!
# Which nodes a stage lists

The list of a stage has the nodes that take part in it, each once and producers first, but no
master (`Walk.stageOrder_exact`). The root is the only node that is missing if it is the only
master, and then whatever a shader reads along an edge belongs to a node that it emits. Another
master that has outputs can be read and still is not listed, so a shader that reads it compiles and
refers to a variable that nothing declares (`master_read_unlisted`).
-/

namespace ShaderGraph

namespace Plan

/-- The variables of an output whose node is emitted, before the reader or in the vertex stage. -/
inductive Emitted (p : Plan) (stage : Stage) (before : List Nat) (producer : Nat)
    (output : String) : String → Prop
  | own (hmem : producer ∈ before) :
    Emitted p stage before producer output ((p.diagram.entry producer).outputName output)
  | handedOver (hstage : stage = .fragment) (hmem : producer ∈ p.stageOrder .vertex) :
    Emitted p stage before producer output ((p.diagram.entry producer).varyingName output)

/-- A text reads an output, up to widening, by a variable whose node is emitted. -/
def ReadsEmitted (p : Plan) (stage : Stage) (before : List Nat) (producer : Nat)
    (output : String) (kind : Kind) (text : String) : Prop :=
  ∃ spec name, (p.diagram.design producer).outputs.get? output = some spec ∧
    text = Glsl.widen name spec.kind kind ∧ p.Emitted stage before producer output name

section Stages

variable {d : Diagram} {stage : Stage} (hd : d.WellFormed)
variable (hmasters : ∀ i < d.entries.length, (d.design i).isMaster = true → i = 0)

include hd hmasters in
/-- Nobody reads the root, so what is read is no master. -/
theorem isMaster_of_edge {i : Nat} (hi : i < d.entries.length) {name : String} {j : Nat}
    {o : String} (he : (d.entry i).node.Edge name j o) : (d.design j).isMaster = false := by
  have hmem : j ∈ d.producers i := (Node.mem_producers _ _).2 ⟨name, o, he⟩
  rw [Bool.eq_false_iff]
  intro hmaster
  obtain rfl := hmasters j (hd.producer_lt hi hmem) hmaster
  exact hd.root_notMem_producers hi hmem

include hd hmasters in
theorem emitted_of_readsIn {i : Nat} (hi : i < d.entries.length) {name : String} {j : Nat}
    {o : String} (he : (d.entry i).node.Edge name j o)
    (hr : (d.design i).ReadsIn name ((ofDiagram d).share i).stages stage) {before : List Nat}
    (hbefore : j ∈ (ofDiagram d).stageOrder stage → j ∈ before) :
    (ofDiagram d).Emitted stage before j o ((ofDiagram d).variableOf stage j o) := by
  have hj : j ∈ d.order := hd.mem_order.2 (hd.edge_lt hi he)
  have hmaster := isMaster_of_edge hd hmasters hi he
  have hcarried := carried_of_readsIn hd hi he hr
  rw [variableOf_of_readsIn hd hi he hr]
  split_ifs at hcarried ⊢ with h
  · exact .handedOver h.1 (mem_stageOrder.2 ⟨hj, hcarried.2, hmaster⟩)
  · exact .own (hbefore (mem_stageOrder.2 ⟨hj, hcarried.1, hmaster⟩))

variable (hp : (ofDiagram d).PortsFit)
include hd hmasters hp

theorem node_reads_emitted {before after : List Nat} {i : Nat}
    (ho : (ofDiagram d).stageOrder stage = before ++ i :: after) {block : List Statement}
    (hblock : (ofDiagram d).emitNode stage i = .ok block) {name : String} {port : Port Nat}
    (hm : (name, port) ∈ (d.entry i).node.inputs.entries) {producer : Nat} {output : String}
    (hs : port.source = some (.edge producer output)) :
    ∃ text, (ofDiagram d).Substitutes stage i name text ∧
      (ofDiagram d).ReadsEmitted stage before producer output port.kind text := by
  have hi : i ∈ (ofDiagram d).stageOrder stage := by simp [ho]
  have hlt := lt_of_mem_stageOrder hd hi
  have he : (d.entry i).node.Edge name producer output :=
    ⟨port, hm, (port.edge?_eq_some_iff _ _).2 hs⟩
  obtain ⟨spec, hspec, -, hsub⟩ := hp.exists_substitute hd hlt hblock hm hs
  refine ⟨_, hsub, spec, _, hspec, rfl, ?_⟩
  exact emitted_of_readsIn hd hmasters hlt he (readsIn_of_mem_stageOrder hi name)
    (mem_of_stageOrder hd ho ((Node.mem_producers _ _).2 ⟨name, output, he⟩))

theorem slot_reads_emitted (hroot : (d.design 0).isMaster = true) {name : String} {slot : Slot}
    (hslot : (d.design 0).slots.get? name = some slot) (hst : slot.stage = stage)
    {port : Port Nat} (hm : (name, port) ∈ d.root.node.inputs.entries) {producer : Nat}
    {output : String} (hs : port.source = some (.edge producer output)) :
    ∃ text, (ofDiagram d).slotValue stage name port = .ok (some text) ∧
      (ofDiagram d).ReadsEmitted stage ((ofDiagram d).stageOrder stage) producer output port.kind
        text := by
  have he := (port.edge?_eq_some_iff _ _).2 hs
  obtain ⟨spec, hspec, -, -, href⟩ := hp.exists_reference hd hd.nonempty hm he
  obtain ⟨hvalue, -⟩ := emitSlot_of_edge hst hm hs (href stage _ name)
  have hreads : (d.design 0).ReadsIn name ((ofDiagram d).share 0).stages stage := by
    rw [Design.ReadsIn, hroot]
    exact ⟨slot, hslot, hst⟩
  exact ⟨_, hvalue, spec, _, hspec, rfl,
    emitted_of_readsIn hd hmasters hd.nonempty ⟨port, hm, he⟩ hreads id⟩

end Stages

end Plan

namespace Walk

/-- The instances that are emitted in a stage, in the order of emission. -/
def stageOrder (w : Walk) (stage : Stage) : List NodeId :=
  ((Plan.ofDiagram w.diagram).stageOrder stage).filterMap (w.ids[·]?)

variable {s : Store} {root : NodeId} {w : Walk}

namespace Explores

variable (hw : Explores s root w)
include hw

theorem ordered_topological : Search.Ordered (fun n => (s.get n).producers) w.topological := by
  obtain ⟨finished, hperm, hordered, -, horder⟩ := hw.order
  rwa [topological, horder, filterMap_idxOf fun n hn => hperm.mem_iff.1 hn]

theorem stageOrder_eq_emitted (stage : Stage) : w.stageOrder stage = w.emitted s stage := by
  rw [stageOrder, hw.stageOrder_eq, filterMap_idxOf fun n hn => hw.mem_ids_of_emitted hn]

theorem mem_stageOrder {stage : Stage} {n : NodeId} : n ∈ w.stageOrder stage ↔ n ∈ w.ids ∧
    (w.share n).stages.contains stage = true ∧ (s.design n).isMaster = false := by
  rw [hw.stageOrder_eq_emitted, emitted, List.mem_filter, hw.topological_perm.mem_iff,
    Bool.and_eq_true, Bool.not_eq_true']

theorem nodup_stageOrder (stage : Stage) : (w.stageOrder stage).Nodup := by
  rw [hw.stageOrder_eq_emitted]
  exact (hw.topological_perm.nodup_iff.2 hw.nodup).filter _

/-- What a node reads, directly or through others, stands before it if it is listed. -/
theorem mem_of_stageOrder {stage : Stage} {before after : List NodeId} {n m : NodeId}
    (h : w.stageOrder stage = before ++ n :: after) (hm : m ∈ w.stageOrder stage)
    (hreads : Relation.TransGen s.Reads n m) : m ∈ before := by
  have hordered := hw.ordered_topological
  rw [hw.stageOrder_eq_emitted] at h hm
  obtain ⟨l₁, rest, htop, rfl, hrest⟩ := List.filter_eq_append_iff.1 h
  obtain ⟨l₂, l₃, rfl, hskip, -, -⟩ := List.filter_eq_cons_iff.1 hrest
  have hsplit : w.topological = (l₁ ++ l₂) ++ n :: l₃ := by simpa using htop
  have hfront : m ∈ l₁ ++ l₂ := by
    obtain ⟨k, hk, hkm⟩ := Relation.TransGen.head'_iff.1 hreads
    rw [hsplit] at hordered
    exact hordered.of_prefix.mem_of_reaches (hordered _ _ _ rfl k hk) hkm
  obtain ⟨-, hlisted⟩ := List.mem_filter.1 hm
  rcases List.mem_append.1 hfront with hmem | hmem
  · exact List.mem_filter.2 ⟨hmem, hlisted⟩
  · exact absurd hlisted (hskip m hmem)

/-- What is read for the vertex stage takes part in it. -/
theorem contains_vertex {n m : NodeId} {name o : String} (hn : n ∈ w.ids)
    (he : (s.get n).Edge name m o) (hr : (s.design n).ReadsIn name (w.share n).stages .vertex) :
    (w.share m).stages.contains .vertex = true := by
  have hc := Plan.carried_of_readsIn hw.wellFormed (hw.idxOf_lt hn) ((hw.edge_idxOf hn name o).2 he)
    (by rwa [hw.design_idxOf hn])
  rw [if_neg fun h => nomatch h.1] at hc
  exact hc.1

end Explores

/-- In each stage, a successful compilation reads variables of nodes that it emits. -/
def EmitsWhatItReads (s : Store) (root : NodeId) (w : Walk) : Prop :=
  ∀ stage,
    (∀ before i after, (Plan.ofDiagram w.diagram).stageOrder stage = before ++ i :: after →
      ∀ name port producer output, (name, port) ∈ (w.diagram.entry i).node.inputs.entries →
        port.source = some (.edge producer output) → ∃ text,
          (Plan.ofDiagram w.diagram).Substitutes stage i name text ∧
          (Plan.ofDiagram w.diagram).ReadsEmitted stage before producer output port.kind text) ∧
    ∀ name slot port producer output, (s.design root).slots.get? name = some slot →
      slot.stage = stage → (name, port) ∈ w.diagram.root.node.inputs.entries →
      port.source = some (.edge producer output) → ∃ text,
        (Plan.ofDiagram w.diagram).slotValue stage name port = .ok (some text) ∧
        (Plan.ofDiagram w.diagram).ReadsEmitted stage
          ((Plan.ofDiagram w.diagram).stageOrder stage) producer output port.kind text

theorem Explores.emitsWhatItReads (hw : Explores s root w)
    (hmaster : (s.design root).isMaster = true)
    (honly : ∀ n, s.Reaches root n → (s.design n).isMaster = true → n = root) {shader : Shader}
    (hplan : (Plan.ofDiagram w.diagram).compile = .ok shader) : EmitsWhatItReads s root w := by
  have hd := hw.wellFormed
  have hp := Plan.portsFit_of_compile hplan
  have hmasters : ∀ i < w.diagram.entries.length,
      (w.diagram.design i).isMaster = true → i = 0 := by
    intro i hi hm
    obtain ⟨n, hn, rfl⟩ := hw.exists_idxOf hi
    rw [hw.design_idxOf hn] at hm
    rw [honly n ((hw.mem_ids n).1 hn) hm, hw.idxOf_root]
  have hdesign := hw.design_zero
  intro stage
  refine ⟨fun before i after ho name port producer output hm hs => ?_,
    fun name slot port producer output hslot hst hm hs => ?_⟩
  · obtain ⟨blocks, block, later, -, hblock, -⟩ :=
      Plan.emit_split (Plan.emit_of_compile hplan stage) ho
    exact Plan.node_reads_emitted hd hmasters hp ho hblock hm hs
  · exact Plan.slot_reads_emitted hd hmasters hp (hdesign ▸ hmaster) (hdesign ▸ hslot) hst hm hs

/-- Below a master without cycles, the list of a stage has the nodes that take part in it and are no
masters, each once and behind all of the list that it reads, directly or through others. If no other
master is found, these are the nodes but the root that take part, and a shader reads variables of
nodes that it emits. -/
theorem stageOrder_exact (h : s.Acyclic root) (hmaster : (s.design root).isMaster = true) :
    ∃ w, discover s root = .ok w ∧ (∀ n, n ∈ w.ids ↔ s.Reaches root n) ∧
      (∀ stage, (w.stageOrder stage).Nodup ∧
        (∀ n, n ∈ w.stageOrder stage ↔ n ∈ w.ids ∧
          (w.share n).stages.contains stage = true ∧ (s.design n).isMaster = false) ∧
        ∀ before n after, w.stageOrder stage = before ++ n :: after → ∀ m ∈ w.stageOrder stage,
          Relation.TransGen s.Reads n m → m ∈ before) ∧
      ((∀ n, s.Reaches root n → (s.design n).isMaster = true → n = root) →
        (∀ stage n, n ∈ w.stageOrder stage ↔
          n ∈ w.ids ∧ n ≠ root ∧ (w.share n).stages.contains stage = true) ∧
        ∀ shader, s.compile root = .ok shader → EmitsWhatItReads s root w) := by
  obtain ⟨w, hd⟩ := discover_isOk_iff.2 h
  have hw := discover_ok hd
  refine ⟨w, hd, hw.mem_ids, fun stage => ⟨hw.nodup_stageOrder stage, fun n => hw.mem_stageOrder,
    fun before n after ho m hm => hw.mem_of_stageOrder ho hm⟩, fun honly => ⟨fun stage n => ?_,
    fun shader hc => ?_⟩⟩
  · rw [hw.mem_stageOrder]
    refine and_congr_right fun hn => and_comm.trans (and_congr_left fun _ => ?_)
    rw [Bool.eq_false_iff]
    exact not_congr ⟨honly n ((hw.mem_ids n).1 hn), fun hroot => hroot ▸ hmaster⟩
  · obtain ⟨-, w', hd', hplan⟩ := (s.compile_eq_ok_iff root shader).1 hc
    cases hd.symm.trans hd'
    exact hw.emitsWhatItReads hmaster honly hplan

theorem stageOrder_exact_pulse : pulse.Acyclic ⟨3⟩ ∧ (pulse.design ⟨3⟩).isMaster = true ∧
    ∃ w, discover pulse ⟨3⟩ = .ok w ∧ w.stageOrder .vertex = [⟨0⟩, ⟨1⟩, ⟨2⟩] ∧
      (∀ stage n, n ∈ w.stageOrder stage ↔
        n ∈ w.ids ∧ n ≠ ⟨3⟩ ∧ (w.share n).stages.contains stage = true) ∧
      EmitsWhatItReads pulse ⟨3⟩ w := by
  obtain ⟨w, hd, -, -, hothers⟩ := stageOrder_exact pulse_acyclic rfl
  obtain ⟨shader, hc⟩ := pulse_compiles
  obtain ⟨hlisted, hreads⟩ := hothers fun n _ hm => by
    rcases n with ⟨_ | _ | _ | _ | _⟩
    · cases hm
    · cases hm
    · cases hm
    · rfl
    · cases hm
  refine ⟨pulse_acyclic, rfl, w, hd, ?_, hlisted, hreads shader hc⟩
  have hw : (discover pulse ⟨3⟩).toOption.map (fun w => w.stageOrder .vertex) =
      some [⟨0⟩, ⟨1⟩, ⟨2⟩] := by decide +kernel
  rw [hd] at hw
  exact Option.some.inj hw

end Walk

/-- A material that reads a value from another master. -/
def nested : Store :=
  let base := Node.named "Base"
    |>.slot "shade" ((Port.ofKind .float).wired (.raw "1.0")) (.plain .fragment "gl_FragDepth")
    |>.output "value" .float "in_shade * 0.5"
  let material := Node.named "Surface"
    |>.slot "depth" ((Port.ofKind .float).wired (.edge ⟨0⟩ "value"))
      (.plain .fragment "gl_FragDepth")
  ⟨#[⟨base, none⟩, ⟨material, none⟩]⟩

/-- What takes part in a stage is not listed if it is a master, and the shader reads it all the
same. -/
theorem master_read_unlisted : nested.Acyclic ⟨1⟩ ∧ (nested.design ⟨1⟩).isMaster = true ∧
    ∃ w shader, Walk.discover nested ⟨1⟩ = .ok w ∧ nested.compile ⟨1⟩ = .ok shader ∧
      ⟨0⟩ ∈ w.ids ∧ (w.share ⟨0⟩).stages.contains .fragment = true ∧
      w.stageOrder .fragment = [] ∧ shader.fragment.varyings = [] ∧
      shader.fragment.statements = [.assign "gl_FragDepth" "Base_1_out_value"] := by
  have hacyclic : nested.Acyclic ⟨1⟩ :=
    (Search.run_isOk_iff _ nested.mem_heldIds nested.length_heldIds).1 ⟨_, rfl⟩
  have hwalk : (Walk.discover nested ⟨1⟩).toOption.map (fun w => (w.ids,
      (w.share ⟨0⟩).stages.contains .fragment, w.stageOrder .fragment)) =
      some ([⟨1⟩, ⟨0⟩], true, []) := by decide +kernel
  have hshader : ((nested.compile ⟨1⟩).toOption.map fun shader =>
      (shader.fragment.varyings, shader.fragment.statements)) =
      some ([], [.assign "gl_FragDepth" "Base_1_out_value"]) := by decide +kernel
  obtain ⟨w, hd, hfacts⟩ := exists_of_toOption hwalk
  obtain ⟨hids, hrest⟩ := Prod.mk.inj hfacts
  obtain ⟨hpart, hlist⟩ := Prod.mk.inj hrest
  obtain ⟨shader, hc, hsource⟩ := exists_of_toOption hshader
  obtain ⟨hvaryings, hstatements⟩ := Prod.mk.inj hsource
  refine ⟨hacyclic, rfl, w, shader, hd, hc, ?_, hpart, hlist, hvaryings, hstatements⟩
  rw [hids]
  decide

end ShaderGraph
