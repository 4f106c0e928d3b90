import ShaderGraph.Proofs.Availability
import ShaderGraph.Proofs.Freshness
import ShaderGraph.Proofs.Resolution
import ShaderGraph.Proofs.SourceText

/-!
# Varyings link the stages

Both stages declare the same varyings. The block of an interpolated node assigns a varying at its
end in the vertex stage, and nothing that is emitted for nodes writes it again
(`links_of_mem_varyings`); a slot does if its target mentions the varying, for no name is kept from
the targets of slots (`varying_written_twice`). Whatever the fragment stage reads from an
interpolated node it reads from a varying (`reads_linked`).
-/

namespace ShaderGraph

namespace Plan

variable {p : Plan} {stage : Stage}

/-! ## Writes -/

/-- The names of ports and outputs consist of characters of words. -/
def Spelled (p : Plan) : Prop :=
  ∀ i < p.diagram.entries.length, ∀ name ∈ (p.diagram.entry i).node.portNames,
    ∀ c ∈ name.toList, Glsl.isWordChar c = true

theorem text_mem_portNames {i : Nat} {l : Label} (hl : l ∈ p.labels stage i)
    (hnames : (p.diagram.entry i).node.Names l) :
    l.text ∈ (p.diagram.entry i).node.portNames := by
  cases hnames with
  | input h => exact List.mem_append_left _ h
  | output h => exact List.mem_append_right _ h
  | varying h => exact List.mem_append_right _ h
  | uniform h =>
    unfold labels handedLabels at hl
    cases stage <;> simp at hl

/-- The block of a node assigns a varying from its output, and only assignments follow. -/
theorem block_eq_of_mem_varyings {i : Nat} {o : String} (ho : o ∈ (p.share i).varyings)
    {block : List Statement} (h : p.emitNode .vertex i = .ok block) :
    ∃ front back, block = front ++
      .assign ((p.diagram.entry i).varyingName o) ((p.diagram.entry i).outputName o) :: back ∧
      ∀ st ∈ back, ∃ target expr, st = .assign target expr := by
  obtain ⟨wires, outputs, scope, -, -, -, rfl⟩ := (emitNode_eq_ok_iff .vertex i block).1 h
  have hmem : .assign ((p.diagram.entry i).varyingName o) ((p.diagram.entry i).outputName o) ∈
      p.handOver .vertex i := List.mem_map.2 ⟨o, ho, rfl⟩
  obtain ⟨before, after, hsplit⟩ := List.append_of_mem hmem
  refine ⟨.comment s!"{(p.diagram.entry i).node.name} ({(p.diagram.entry i).ident})" ::
    (wires.flatMap Wire.statements ++ outputs ++ scope ++ before), after, ?_, fun st hst => ?_⟩
  · rw [hsplit]
    simp only [List.append_assoc, List.cons_append]
  · have hst : st ∈ p.handOver .vertex i :=
      hsplit ▸ List.mem_append_right _ (List.mem_cons_of_mem _ hst)
    obtain ⟨o', -, rfl⟩ := List.mem_map.1 hst
    exact ⟨_, _, rfl⟩

/-! ## Links -/

/-- A varying is declared for an output of an interpolated node and assigned by the node's block in
the vertex stage, behind everything else but other assignments. No other statement of the nodes
writes it, and none mentions it on the left if ports and outputs are spelled like words. Behind the
nodes there are the assignments of slots, with their targets. -/
structure Links (p : Plan) (source : StageSource) (v : Varying) (i : Nat) (o : String) : Prop where
  interpolated : (p.diagram.design i).interpolated = true
  output : ∃ spec, (p.diagram.design i).outputs.get? o = some spec ∧
    v = ⟨spec.kind.type, (p.diagram.entry i).varyingName o⟩
  block : ∃ earlier front back later,
    p.emitNode .vertex i =
      .ok (front ++ .assign v.name ((p.diagram.entry i).outputName o) :: back) ∧
    source.statements =
      earlier ++ (front ++ .assign v.name ((p.diagram.entry i).outputName o) :: back) ++ later ∧
    ∀ st ∈ back, ∃ target expr, st = .assign target expr
  once : ∃ nodes before after, ∃ writes : List (String × String),
    (p.stageOrder .vertex).mapM (p.emitNode .vertex) = .ok nodes ∧
    nodes.flatten = before ++ .assign v.name ((p.diagram.entry i).outputName o) :: after ∧
    source.statements = nodes.flatten ++ writes.map (fun write => .assign write.1 write.2) ∧
    (∀ st ∈ before ++ after, st.target? ≠ some v.name ∧ (p.Spelled → ¬ st.MayWrite v.name)) ∧
    writes.map Prod.fst = p.slotTargets .vertex

/-- A node of the fragment stage or a wired slot of that stage reads an output. -/
inductive FragmentReads (p : Plan) (i : Nat) (o : String) : Prop
  | node {c : Nat} {name : String} (hmem : c ∈ p.stageOrder .fragment)
    (hedge : (p.diagram.entry c).node.Edge name i o) : FragmentReads p i o
  | slot {name : String} {slot : Slot} (hwired : (name, slot) ∈ p.wiredSlots)
    (hstage : slot.stage = .fragment) (hedge : p.diagram.root.node.Edge name i o) :
    FragmentReads p i o

/-- A text of the type of a kind reads an output from a declared varying, if its node is
interpolated, and from the variable of the node otherwise; that is no variable of an interpolated
node. -/
def ReadsLinked (p : Plan) (varyings : List Varying) (producer : Nat) (output : String)
    (kind : Kind) (text : String) : Prop :=
  ∃ spec name, (p.diagram.design producer).outputs.get? output = some spec ∧
    text = Glsl.widen name spec.kind kind ∧
    (if (p.diagram.design producer).interpolated then
      name = (p.diagram.entry producer).varyingName output ∧ ⟨spec.kind.type, name⟩ ∈ varyings
    else name = (p.diagram.entry producer).outputName output) ∧
    ∀ j < p.diagram.entries.length, (p.diagram.design j).interpolated = true →
      ∀ o, name ≠ (p.diagram.entry j).outputName o

section Stages

variable {d : Diagram} (hd : d.WellFormed) (hp : (ofDiagram d).PortsFit)
variable (hpure : ∀ i < d.entries.length,
  (d.design i).isMaster = false ∨ (d.design i).outputs.entries = [])

include hd hp in
/-- What nodes write besides a varying is another name, which as a word does not mention it. -/
theorem not_mayWrite_of_ne {nodes : List (List Statement)}
    (hn : ((ofDiagram d).stageOrder stage).mapM ((ofDiagram d).emitNode stage) = .ok nodes)
    (hspelled : (ofDiagram d).Spelled) {st : Statement} (hst : st ∈ nodes.flatten) {name : String}
    (hne : st.target? ≠ some name) : ¬ st.MayWrite name := by
  rintro ⟨target, htarget, hmentions⟩
  obtain ⟨j, hj, l, hl, rfl⟩ := (mem_targets_iff hn).1 (List.mem_filterMap.2 ⟨st, hst, htarget⟩)
  have hlt := lt_of_mem_stageOrder hd hj
  have hchars : ∀ c ∈ l.text.toList, Glsl.isWordChar c = true :=
    hspelled j hlt l.text (text_mem_portNames hl (names_of_mem_labels hd hp hlt hl))
  have hname := isName_label (hd.ident_eq j hlt) hchars
  obtain rfl := hmentions.eq_of_isWordChar fun _ => hname.isWordChar
  exact hne htarget

include hd hp hpure in
theorem links_of_mem_varyings {source : StageSource}
    (hsource : (ofDiagram d).emit .vertex = .ok source) {i : Nat} (hi : i < d.entries.length)
    {o : String} (ho : o ∈ ((ofDiagram d).share i).varyings) {spec : Output}
    (hspec : (d.design i).outputs.get? o = some spec) :
    (ofDiagram d).Links source ⟨spec.kind.type, (d.entry i).varyingName o⟩ i o := by
  have hinter : (d.design i).interpolated = true :=
    (((Diagram.shares_settled hd).varyings i hi o).1 ho).1
  obtain ⟨-, hstage, -⟩ := of_mem_varyings hd hp hi ho
  have hmem : i ∈ (ofDiagram d).stageOrder .vertex := mem_stageOrder.2
    ⟨hd.mem_order.2 hi, hstage, isMaster_of_output hpure hi hspec⟩
  obtain ⟨before, after, horder⟩ := List.append_of_mem hmem
  obtain ⟨blocks, block, later, -, hblock, hstatements⟩ := emit_split hsource horder
  obtain ⟨front, back, rfl, hback⟩ := block_eq_of_mem_varyings ho hblock
  obtain ⟨nodes, slots, hn, hs, rfl⟩ := (emit_eq_ok_iff .vertex source).1 hsource
  obtain ⟨writes, hwrites, -⟩ := slots_of_mapM hs
  obtain ⟨block, hin, hblock'⟩ := mem_of_mapM hn hmem
  cases hblock.symm.trans hblock'
  have hassign := List.mem_flatten_of_mem hin (List.mem_append_right front List.mem_cons_self)
  obtain ⟨before, after, hsplit⟩ := List.append_of_mem hassign
  refine ⟨hinter, ⟨spec, hspec, rfl⟩, ⟨_, front, back, later, hblock, hstatements, hback⟩,
    nodes, before, after, writes, hn, hsplit, ?_, fun st hst => ?_, ?_⟩
  · rw [← hwrites]
  · -- the nodes write no name twice, so the statements around the assignment write others
    have hnodup := nodup_targets hd hn
    have htargets : targets nodes.flatten =
        targets before ++ (d.entry i).varyingName o :: targets after := by
      rw [hsplit, targets_append]
      rfl
    rw [htargets, List.nodup_middle, List.nodup_cons] at hnodup
    have hne : st.target? ≠ some ((d.entry i).varyingName o) := by
      intro htarget
      refine hnodup.1 ?_
      rw [← targets_append]
      exact List.mem_filterMap.2 ⟨st, hst, htarget⟩
    refine ⟨hne, fun hspelled => not_mayWrite_of_ne hd hp hn hspelled ?_ hne⟩
    rw [hsplit]
    rcases List.mem_append.1 hst with hst | hst
    · exact List.mem_append_left _ hst
    · exact List.mem_append_right _ (List.mem_cons_of_mem _ hst)
  · rw [← targets_slots hs, hwrites, targets_assigns]

/-! ## Readers -/

include hd in
theorem fragmentReads_of_mem_varyings
    (hroot : ∀ i < d.entries.length, (d.design i).isMaster = true → i = 0) {i : Nat}
    (hi : i < d.entries.length) {o : String} (ho : o ∈ ((ofDiagram d).share i).varyings) :
    (ofDiagram d).FragmentReads i o := by
  obtain ⟨c, hc, name, hedge, hreads⟩ := (((Diagram.shares_settled hd).varyings i hi o).1 ho).2
  have horder : c ∈ d.order := List.mem_reverse.1 hc
  unfold Design.ReadsIn at hreads
  split_ifs at hreads with hmaster
  · -- a master reads in the stages of its slots, and only the root is one
    obtain rfl := hroot c (hd.mem_order.1 horder) hmaster
    obtain ⟨slot, hslot, hst⟩ := hreads
    obtain ⟨port, hm, he⟩ := hedge
    refine .slot (List.mem_filter.2 ⟨(Table.get?_eq_some_iff _ _ _).1 hslot, ?_⟩) hst
      ⟨port, hm, he⟩
    change (((d.entry 0).node.inputs.get? name).bind Port.source).isSome = true
    rw [(Table.get?_eq_some_iff _ _ _).2 hm, Option.bind_some, (port.edge?_eq_some_iff _ _).1 he]
    rfl
  · exact .node (mem_stageOrder.2 ⟨horder, hreads, Bool.eq_false_of_not_eq_true hmaster⟩) hedge

include hd in
/-- The fragment stage reads varyings of interpolated nodes, and variables of others only. -/
theorem reads_linked {i : Nat} (hi : i < d.entries.length) {name : String} {j : Nat} {o : String}
    (he : (d.entry i).node.Edge name j o)
    (hr : (d.design i).ReadsIn name ((ofDiagram d).share i).stages .fragment) {spec : Output}
    (hspec : (d.design j).outputs.get? o = some spec) (kind : Kind) :
    (ofDiagram d).ReadsLinked (ofDiagram d).varyings j o kind
      (Glsl.widen ((ofDiagram d).variableOf .fragment j o) spec.kind kind) := by
  have hj : j < d.entries.length := hd.edge_lt hi he
  have hcarried := carried_of_readsIn hd hi he hr
  have hvariable := variableOf_of_readsIn hd hi he hr
  simp only [true_and] at hcarried hvariable
  refine ⟨spec, _, hspec, rfl, ?_, fun k hk hinter o' heq => ?_⟩
  · change if (d.design j).interpolated = true then _ else _
    split_ifs at hcarried hvariable ⊢
    · refine ⟨hvariable, ?_⟩
      rw [hvariable]
      exact mem_varyings_iff.2 ⟨j, hj, o, hcarried.1, spec, hspec, rfl⟩
    · exact hvariable
  · rw [hvariable] at heq
    split_ifs at heq with h
    · change (d.entry j).label (.varying o) = (d.entry k).label (.output o') at heq
      cases (hd.label_inj hj hk heq).2
    · change (d.entry j).label (.output o) = (d.entry k).label (.output o') at heq
      obtain ⟨rfl, -⟩ := hd.label_inj hj hk heq
      exact h hinter

variable {source : StageSource} (hsource : (ofDiagram d).emit .fragment = .ok source)
include hd hp hsource

theorem node_reads_linked {i : Nat} (hi : i ∈ (ofDiagram d).stageOrder .fragment) :
    ∃ earlier block later, source.statements = earlier ++ block ++ later ∧
      (ofDiagram d).emitNode .fragment i = .ok block ∧
      ∀ name port producer output, (name, port) ∈ (d.entry i).node.inputs.entries →
        port.source = some (.edge producer output) → ∃ text,
          (ofDiagram d).Substitutes .fragment i name text ∧
          (ofDiagram d).ReadsLinked source.varyings producer output port.kind text := by
  obtain ⟨before, after, horder⟩ := List.append_of_mem hi
  obtain ⟨blocks, block, later, -, hblock, hstatements⟩ := emit_split hsource horder
  have hlt := lt_of_mem_stageOrder hd hi
  refine ⟨_, block, later, hstatements, hblock, fun name port producer output hm hs => ?_⟩
  have he := (port.edge?_eq_some_iff _ _).2 hs
  obtain ⟨spec, hspec, -, hsub⟩ := hp.exists_substitute hd hlt hblock hm hs
  obtain ⟨_, _, -, -, rfl⟩ := (emit_eq_ok_iff .fragment source).1 hsource
  exact ⟨_, hsub, reads_linked hd hlt ⟨port, hm, he⟩ (readsIn_of_mem_stageOrder hi name) hspec _⟩

theorem slot_reads_linked (hmaster : (d.design 0).isMaster = true) {name : String} {slot : Slot}
    (hslot : (name, slot) ∈ (d.design 0).slots.entries) (hst : slot.stage = .fragment)
    {port : Port Nat} (hm : (name, port) ∈ d.root.node.inputs.entries) {producer : Nat}
    {output : String} (hs : port.source = some (.edge producer output)) :
    ∃ text expr, .assign slot.target expr ∈ source.statements ∧
      Slot.Fills slot.template.toList text.toList expr.toList ∧
      (ofDiagram d).slotValue .fragment name port = .ok (some text) ∧
      (ofDiagram d).ReadsLinked source.varyings producer output port.kind text := by
  have he := (port.edge?_eq_some_iff _ _).2 hs
  obtain ⟨spec, hspec, -, -, href⟩ := hp.exists_reference hd hd.nonempty hm he
  obtain ⟨hvalue, hemit⟩ := emitSlot_of_edge hst hm hs (href .fragment _ name)
  have hreads : (d.design 0).ReadsIn name ((ofDiagram d).share 0).stages .fragment := by
    rw [Design.ReadsIn, hmaster]
    exact ⟨slot, (Table.get?_eq_some_iff _ _ _).2 hslot, hst⟩
  obtain ⟨nodes, slots, -, hslots, rfl⟩ := (emit_eq_ok_iff .fragment source).1 hsource
  obtain ⟨l, hl, hok⟩ := mem_of_mapM hslots hslot
  cases hemit.symm.trans hok
  refine ⟨_, _, List.mem_append_right _ (List.mem_flatten_of_mem hl List.mem_cons_self),
    slot.fills_expression _, hvalue, ?_⟩
  exact reads_linked hd hd.nonempty ⟨port, hm, he⟩ hreads hspec _

end Stages

end Plan

/-! ## Shaders -/

namespace Walk.Explores

variable {s : Store} {root : NodeId} {w : Walk} (hw : Explores s root w)
include hw

theorem exists_reader {i : Nat} (hi : i < w.diagram.entries.length) (h0 : i ≠ 0) :
    ∃ c < w.diagram.entries.length, i ∈ w.diagram.producers c := by
  obtain ⟨n, hn, rfl⟩ := hw.exists_idxOf hi
  rcases ((hw.mem_ids n).1 hn).cases_tail with rfl | ⟨m, hm, hreads⟩
  · exact absurd hw.idxOf_root h0
  · have hmem := (hw.mem_ids m).2 hm
    refine ⟨_, hw.idxOf_lt hmem, ?_⟩
    rw [hw.producers_idxOf hmem]
    exact List.mem_map_of_mem hreads

/-- A master without outputs cannot be read, so it is the root. -/
theorem eq_zero_of_isMaster (hp : (Plan.ofDiagram w.diagram).PortsFit)
    (hpure : ∀ i < w.diagram.entries.length,
      (w.diagram.design i).isMaster = false ∨ (w.diagram.design i).outputs.entries = [])
    {i : Nat} (hi : i < w.diagram.entries.length)
    (hmaster : (w.diagram.design i).isMaster = true) : i = 0 := by
  by_contra h0
  obtain ⟨c, hc, hmem⟩ := hw.exists_reader hi h0
  obtain ⟨name, o, port, hm, he⟩ := (Node.mem_producers _ _).1 hmem
  obtain ⟨spec, hspec, -⟩ := hp.exists_reference hw.wellFormed hc hm he
  rw [Plan.isMaster_of_output hpure hi hspec] at hmaster
  cases hmaster

end Walk.Explores

/-- In a graph without a master that has outputs, both stages declare the same varyings, each once.
A varying is assigned by the block of its interpolated node and by no other statement of the nodes;
only slots behind them may have it in their targets. Some reader of the fragment stage reads what it
carries. Every edge that is read in the fragment stage reads a declared varying, or the variable of
a node that is not interpolated. -/
theorem Store.varyings_link {s : Store} {root : NodeId} {shader : Shader}
    (hc : s.compile root = .ok shader)
    (hpure : ∀ n, s.Reaches root n →
      (s.design n).slots.entries = [] ∨ (s.design n).outputs.entries = []) :
    ∃ w, Walk.discover s root = .ok w ∧ shader.vertex.varyings = shader.fragment.varyings ∧
      (shader.vertex.varyings.map Varying.name).Nodup ∧
      (∀ stage, StageSource.Declares (shader.source stage) (shader.stage stage).uniforms
        shader.vertex.varyings (shader.stage stage).headers) ∧
      (∀ v ∈ shader.vertex.varyings, ∃ i < w.diagram.entries.length, ∃ o,
        (Plan.ofDiagram w.diagram).Links shader.vertex v i o ∧
        (Plan.ofDiagram w.diagram).FragmentReads i o) ∧
      (∀ c ∈ (Plan.ofDiagram w.diagram).stageOrder .fragment, ∃ earlier block later,
        shader.fragment.statements = earlier ++ block ++ later ∧
        (Plan.ofDiagram w.diagram).emitNode .fragment c = .ok block ∧
        ∀ name port producer output, (name, port) ∈ (w.diagram.entry c).node.inputs.entries →
          port.source = some (.edge producer output) → ∃ text,
            (Plan.ofDiagram w.diagram).Substitutes .fragment c name text ∧
            (Plan.ofDiagram w.diagram).ReadsLinked shader.fragment.varyings producer output
              port.kind text) ∧
      ∀ name slot port producer output, (name, slot) ∈ (s.design root).slots.entries →
        slot.stage = .fragment → (name, port) ∈ w.diagram.root.node.inputs.entries →
        port.source = some (.edge producer output) → ∃ text expr,
          .assign slot.target expr ∈ shader.fragment.statements ∧
          Slot.Fills slot.template.toList text.toList expr.toList ∧
          (Plan.ofDiagram w.diagram).slotValue .fragment name port = .ok (some text) ∧
          (Plan.ofDiagram w.diagram).ReadsLinked shader.fragment.varyings producer output
            port.kind text := by
  obtain ⟨hmaster, w, hdisc, hplan⟩ := (s.compile_eq_ok_iff root shader).1 hc
  have hw := Walk.discover_ok hdisc
  have hd := hw.wellFormed
  have hp := Plan.portsFit_of_compile hplan
  have hpure' := hw.pure_entries hpure
  have hvertex := Plan.emit_of_compile hplan .vertex
  have hfragment := Plan.emit_of_compile hplan .fragment
  have hvaryings : ∀ stage, (shader.stage stage).varyings =
      (Plan.ofDiagram w.diagram).varyings := by
    intro stage
    obtain ⟨_, _, -, -, hsource⟩ :=
      (Plan.emit_eq_ok_iff stage _).1 (Plan.emit_of_compile hplan stage)
    rw [hsource]
  have hv : shader.vertex.varyings = (Plan.ofDiagram w.diagram).varyings := hvaryings .vertex
  refine ⟨w, hdisc, hv.trans (hvaryings .fragment).symm, ?_, fun stage => ?_, ?_, ?_, ?_⟩
  · have hdeclared := Plan.nodup_declared hd hp hvertex
    exact hdeclared.of_append_right.of_append_left
  · rw [hv, ← hvaryings stage]
    exact shader.declares_source stage
  · intro v hmem
    obtain ⟨i, hi, o, ho, spec, hspec, rfl⟩ := Plan.mem_varyings_iff.1 (hv ▸ hmem)
    exact ⟨i, hi, o, Plan.links_of_mem_varyings hd hp hpure' hvertex hi ho hspec,
      Plan.fragmentReads_of_mem_varyings hd
        (fun _ hi hm => hw.eq_zero_of_isMaster hp hpure' hi hm) hi ho⟩
  · exact fun c hc => Plan.node_reads_linked hd hp hfragment hc
  · have hdesign := hw.design_zero
    intro name slot port producer output hslot hst hm hs
    exact Plan.slot_reads_linked hd hp hfragment (hdesign ▸ hmaster) (hdesign ▸ hslot) hst hm hs

theorem varyings_link_pulse : ∃ shader w, pulse.compile ⟨3⟩ = .ok shader ∧
    Walk.discover pulse ⟨3⟩ = .ok w ∧ shader.vertex.varyings = shader.fragment.varyings ∧
    ⟨"vec3", "v_WorldPosition_2_value"⟩ ∈ shader.vertex.varyings ∧
    ∀ v ∈ shader.vertex.varyings, ∃ i < w.diagram.entries.length, ∃ o,
      (Plan.ofDiagram w.diagram).Links shader.vertex v i o ∧
      (Plan.ofDiagram w.diagram).FragmentReads i o := by
  have hdeclared : ((pulse.compile ⟨3⟩).toOption.map fun shader => shader.vertex.varyings) =
      some [⟨"vec3", "v_WorldPosition_2_value"⟩] := by decide +kernel
  obtain ⟨shader, hc, hvaryings⟩ := exists_of_toOption hdeclared
  obtain ⟨w, hd, hv, -, -, hlinks, -⟩ := Store.varyings_link hc fun n _ => by
    rcases n with ⟨_ | _ | _ | _ | _⟩
    · exact .inl rfl
    · exact .inl rfl
    · exact .inl rfl
    · exact .inr rfl
    · exact .inl rfl
  refine ⟨shader, w, hc, hd, hv, ?_, hlinks⟩
  rw [hvaryings]
  exact List.mem_singleton_self _

section Respelled

open Library

/-- A material with a slot that has the name of a varying as its target. -/
def respelled : Store :=
  let material := Node.named "Surface"
    |>.slot "color" ((Port.ofKind .vector3).wired (.edge ⟨0⟩ "value"))
      ⟨"gl_FragColor", .fragment, solidValue⟩
    |>.slot "shift" ((Port.ofKind .vector3).wired (.raw "vec3(0.0)"))
      (.plain .vertex "v_WorldPosition_1_value")
  ⟨#[⟨worldPositionTemplate, none⟩, ⟨material, none⟩]⟩

/-- A varying is assigned by the block of its node, and then by a slot. -/
theorem varying_written_twice : ∃ shader, respelled.compile ⟨1⟩ = .ok shader ∧
    (∀ n, respelled.Reaches ⟨1⟩ n →
      (respelled.design n).slots.entries = [] ∨ (respelled.design n).outputs.entries = []) ∧
    shader.vertex.varyings = [⟨"vec3", "v_WorldPosition_1_value"⟩] ∧
    ∃ before, shader.vertex.statements =
      before ++ [.assign "v_WorldPosition_1_value" "WorldPosition_1_out_value",
        .assign "v_WorldPosition_1_value" "vec3(0.0)"] := by
  have h : ((respelled.compile ⟨1⟩).toOption.map fun shader =>
      (shader.vertex.varyings, shader.vertex.statements.drop 2)) =
      some ([⟨"vec3", "v_WorldPosition_1_value"⟩],
        [.assign "v_WorldPosition_1_value" "WorldPosition_1_out_value",
          .assign "v_WorldPosition_1_value" "vec3(0.0)"]) := by decide +kernel
  obtain ⟨shader, hc, hfacts⟩ := exists_of_toOption h
  obtain ⟨hvaryings, hlast⟩ := Prod.mk.inj hfacts
  refine ⟨shader, hc, fun n _ => ?_, hvaryings, shader.vertex.statements.take 2, ?_⟩
  · rcases n with ⟨_ | _ | _⟩
    · exact .inl rfl
    · exact .inr rfl
    · exact .inl rfl
  · rw [← hlast, List.take_append_drop]

end Respelled

end ShaderGraph
