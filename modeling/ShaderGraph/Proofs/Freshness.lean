import ShaderGraph.Proofs.Declarations

/-!
# Declared names are fresh

The uniforms, the varyings and the variables that a stage declares are all named for labels of
nodes, and for no label of a node twice (`declared_eq`). So no name is declared twice
(`nodup_declared`). Over a whole walk a name determines its node and what it is for
(`generated_names_distinct`).
-/

namespace ShaderGraph

def Statement.declared? : Statement → Option String
  | .declare _ name _ => some name
  | .comment _ | .block _ | .assign _ _ => none

/-- The names that the declarations of a stage introduce, at the top level and in its main
function. -/
def StageSource.declared (s : StageSource) : List String :=
  s.uniforms ++ (s.varyings.map Varying.name ++ s.statements.filterMap Statement.declared?)

theorem declared_eq_targets {l : List Statement}
    (h : ∀ st ∈ l, ∃ type name init, st = .declare type name init) :
    l.filterMap Statement.declared? = targets l := by
  refine List.filterMap_congr fun st hst => ?_
  obtain ⟨type, name, init, rfl⟩ := h st hst
  rfl

namespace Plan

variable {p : Plan} {stage : Stage}

/-! ## Nodes -/

/-- What the block of a node declares variables for, in the order of their declarations. -/
def declaredLabels (p : Plan) (i : Nat) : List Label :=
  ((p.diagram.entry i).node.inputs.entries.filter fun input => input.2.edge?.isNone).map
      (fun input => .input input.1) ++
    (p.diagram.design i).outputs.keys.map .output

theorem declare_of_mem_wire {e : Entry} {name : String} {port : Port Nat} {w : Wire}
    (h : p.wire stage e name port = .ok w) :
    ∀ st ∈ w.statements, ∃ type name init, st = .declare type name init := by
  intro st hst
  simp only [wire] at h
  split at h
  · cases h
  · cases h
    exact ⟨_, _, _, List.mem_singleton.1 hst⟩
  · cases h
    exact ⟨_, _, _, List.mem_singleton.1 hst⟩
  · obtain ⟨expr, -, h⟩ := (bind_eq_ok_iff _ _ _).1 h
    cases h
    cases hst

/-- Inputs and outputs are declared and nothing else. -/
theorem declare_of_mem_inputs_outputs {e : Entry} {wires : List Wire} {outputs : List Statement}
    (hw : e.node.inputs.entries.mapM (fun input => p.wire stage e input.1 input.2) = .ok wires)
    (ho : e.node.design.outputs.entries.mapM
      (fun output => e.declaration stage wires output.1 output.2) = .ok outputs) :
    ∀ st ∈ wires.flatMap Wire.statements ++ outputs,
      ∃ type name init, st = .declare type name init := by
  intro st hst
  rcases List.mem_append.1 hst with hst | hst
  · obtain ⟨w, hmem, hst⟩ := List.mem_flatMap.1 hst
    obtain ⟨_, -, hwire⟩ := exists_of_mem_mapM hw hmem
    exact declare_of_mem_wire hwire st hst
  · obtain ⟨_, -, hdecl⟩ := exists_of_mem_mapM ho hst
    obtain ⟨init, rfl⟩ := declaration_eq_ok hdecl
    exact ⟨_, _, init, rfl⟩

theorem targets_inputs_outputs {i : Nat} {wires : List Wire} {outputs : List Statement}
    (hw : (p.diagram.entry i).node.inputs.entries.mapM
      (fun input => p.wire stage (p.diagram.entry i) input.1 input.2) = .ok wires)
    (ho : (p.diagram.entry i).node.design.outputs.entries.mapM
      (fun output => (p.diagram.entry i).declaration stage wires output.1 output.2)
        = .ok outputs) :
    targets (wires.flatMap Wire.statements ++ outputs) =
      (p.declaredLabels i).map (p.diagram.entry i).label := by
  rw [targets_append, targets_wires hw, targets_outputs ho, declaredLabels, List.map_append]
  rfl

theorem declared_scope {e : Entry} {wires : List Wire} {statements : List Statement}
    (h : e.scope stage wires = .ok statements) :
    statements.filterMap Statement.declared? = [] := by
  rcases scope_eq_ok h with rfl | ⟨text, rfl⟩ <;> rfl

theorem assign_of_mem_handOver {i : Nat} :
    ∀ st ∈ p.handOver stage i, ∃ target expr, st = .assign target expr := by
  intro st hst
  cases stage with
  | fragment => cases hst
  | vertex =>
    obtain ⟨o, -, rfl⟩ := List.mem_map.1 hst
    exact ⟨_, _, rfl⟩

theorem declared_eq_nil {l : List Statement}
    (h : ∀ st ∈ l, ∃ target expr, st = .assign target expr) :
    l.filterMap Statement.declared? = [] := by
  refine List.filterMap_eq_nil_iff.2 fun st hst => ?_
  obtain ⟨target, expr, rfl⟩ := h st hst
  rfl

/-- The block of a node declares its inputs and outputs only. -/
theorem declared_block {i : Nat} {block : List Statement} (h : p.emitNode stage i = .ok block) :
    block.filterMap Statement.declared? =
      (p.declaredLabels i).map (p.diagram.entry i).label := by
  obtain ⟨wires, outputs, scope, hw, ho, hs, rfl⟩ := (emitNode_eq_ok_iff stage i block).1 h
  have hdecls := declare_of_mem_inputs_outputs hw ho
  have hcomment : ∀ text (l : List Statement),
    (.comment text :: l).filterMap Statement.declared? = l.filterMap Statement.declared? :=
    fun _ _ => rfl
  rw [hcomment, List.filterMap_append, List.filterMap_append, declared_scope hs,
    declared_eq_nil assign_of_mem_handOver, declared_eq_targets hdecls,
    targets_inputs_outputs hw ho, List.append_nil, List.append_nil]

theorem declared_flatten (l : List (List Statement)) :
    l.flatten.filterMap Statement.declared? =
      l.flatMap fun statements => statements.filterMap Statement.declared? := by
  rw [List.filterMap_flatten, List.flatMap_def]

theorem declared_blocks {order : List Nat} {blocks : List (List Statement)}
    (h : order.mapM (p.emitNode stage) = .ok blocks) :
    blocks.flatten.filterMap Statement.declared? =
      order.flatMap fun i => (p.declaredLabels i).map (p.diagram.entry i).label := by
  rw [declared_flatten]
  exact flatMap_of_mapM (fun _ _ => declared_block) h

theorem assign_of_mem_slots {entries : List (String × Slot)} {slots : List (List Statement)}
    (h : entries.mapM (fun slot => p.emitSlot stage slot.1 slot.2) = .ok slots) :
    ∀ st ∈ slots.flatten, ∃ target expr, st = .assign target expr := by
  intro st hst
  obtain ⟨l, hl, hst⟩ := List.mem_flatten.1 hst
  obtain ⟨slot, -, hemit⟩ := exists_of_mem_mapM h hl
  have hslot := emitSlot_eq_ok hemit
  split_ifs at hslot
  · obtain ⟨value, -, rfl⟩ := hslot
    exact ⟨_, _, List.mem_singleton.1 hst⟩
  · rw [hslot] at hst
    cases hst

/-! ## Stages -/

def clockLabels (p : Plan) (i : Nat) : List Label :=
  ((p.diagram.design i).clock.map fun clock => .uniform clock.uniform).toList

theorem mem_clockLabels {i : Nat} {l : Label} : l ∈ p.clockLabels i ↔
    ∃ clock, (p.diagram.design i).clock = some clock ∧ .uniform clock.uniform = l := by
  simp only [clockLabels, Option.mem_toList, Option.map_eq_some_iff]

def varyingLabels (p : Plan) (i : Nat) : List Label := (p.share i).varyings.map .varying

/-- What a stage declares names for, with the numbers of the nodes. -/
def sourceLabels (p : Plan) (stage : Stage) : List (Σ _ : Nat, Label) :=
  (p.stageOrder stage).sigma p.clockLabels ++
    ((List.range p.diagram.entries.length).sigma p.varyingLabels ++
      (p.stageOrder stage).sigma p.declaredLabels)

def nameOf (p : Plan) (x : Σ _ : Nat, Label) : String := (p.diagram.entry x.1).label x.2

theorem map_nameOf_sigma (order : List Nat) (labels : Nat → List Label) :
    (order.sigma labels).map p.nameOf =
      order.flatMap fun i => (labels i).map (p.diagram.entry i).label := by
  simp only [List.sigma, List.map_flatMap, List.map_map]
  rfl

theorem map_uniform? (p : Plan) (order : List Nat) :
    order.filterMap p.uniform? = (order.sigma p.clockLabels).map p.nameOf := by
  rw [map_nameOf_sigma, List.filterMap_eq_flatMap_toList]
  refine List.flatMap_congr fun i _ => ?_
  simp only [uniform?, clockLabels, Diagram.design]
  rcases (p.diagram.entry i).node.design.clock with _ | clock <;> rfl

variable {d : Diagram} (hd : d.WellFormed) (hp : (ofDiagram d).PortsFit)
include hd hp

/-- Everything that is handed over has a varying, in the order of the nodes' numbers. -/
theorem map_name_varyings : (ofDiagram d).varyings.map Varying.name =
    ((List.range d.entries.length).sigma (ofDiagram d).varyingLabels).map (ofDiagram d).nameOf := by
  rw [map_nameOf_sigma, varyings, List.map_flatMap]
  refine List.flatMap_congr fun i hi => ?_
  rw [varyingLabels, List.map_map, List.map_filterMap, ← List.filterMap_eq_map]
  refine List.filterMap_congr fun o ho => ?_
  obtain ⟨⟨spec, hspec⟩, -⟩ := of_mem_varyings hd hp (List.mem_range.1 hi) ho
  change (((d.design i).outputs.get? o).map _).map _ = _
  rw [hspec]
  rfl

theorem declared_eq {source : StageSource} (h : (ofDiagram d).emit stage = .ok source) :
    source.declared = ((ofDiagram d).sourceLabels stage).map (ofDiagram d).nameOf := by
  obtain ⟨nodes, slots, hn, hs, rfl⟩ := (emit_eq_ok_iff stage source).1 h
  simp only [StageSource.declared, sourceLabels, List.map_append, List.filterMap_append,
    declared_eq_nil (assign_of_mem_slots hs), declared_blocks hn, List.append_nil,
    map_name_varyings hd hp]
  rw [map_uniform?, ← map_nameOf_sigma]
  rfl

omit hp in
theorem nodup_varyings (i : Nat) : ((ofDiagram d).share i).varyings.Nodup := by
  rcases Nat.lt_or_ge i d.entries.length with hi | hi
  · exact (Diagram.shares_settled hd).nodup i hi
  · have hnone : (ofDiagram d).share i = default := by
      rw [share, List.getD_eq_default]
      exact (Diagram.shares_settled hd).length ▸ hi
    rw [hnone]
    exact List.nodup_nil

omit hp in
theorem nodup_sourceLabels (stage : Stage) : ((ofDiagram d).sourceLabels stage).Nodup := by
  have horder : ((ofDiagram d).stageOrder stage).Nodup := nodup_stageOrder hd
  have hclocks : ∀ i, ((ofDiagram d).clockLabels i).Nodup := fun i => by
    rw [clockLabels]
    rcases ((ofDiagram d).diagram.design i).clock with _ | clock
    · exact List.nodup_nil
    · exact List.nodup_singleton _
  have hvaryings : ∀ i, ((ofDiagram d).varyingLabels i).Nodup := fun i =>
    (nodup_varyings hd i).map fun a b he => by cases he; rfl
  have hdeclared : ∀ i, ((ofDiagram d).declaredLabels i).Nodup := fun i => by
    have hlabels : ((ofDiagram d).labels stage i).Nodup := nodup_labels (nodup_varyings hd i)
    exact hlabels.of_append_left
  -- within a part the nodes are distinct, and the parts have labels of different kinds
  refine List.nodup_append.2 ⟨horder.sigma hclocks,
    List.nodup_append.2 ⟨List.nodup_range.sigma hvaryings, horder.sigma hdeclared, ?_⟩, ?_⟩
  · rintro ⟨i, l⟩ hv _ hl rfl
    obtain ⟨o, -, rfl⟩ := List.mem_map.1 (List.mem_sigma.1 hv).2
    simp [declaredLabels] at hl
  · rintro ⟨i, l⟩ hc _ hl rfl
    obtain ⟨clock, -, rfl⟩ := mem_clockLabels.1 (List.mem_sigma.1 hc).2
    simp [varyingLabels, declaredLabels] at hl

/-- What a stage declares names for are nodes of the diagram and labels that they have. -/
theorem names_of_mem_sourceLabels {i : Nat} {l : Label}
    (h : ⟨i, l⟩ ∈ (ofDiagram d).sourceLabels stage) :
    i < d.entries.length ∧ (d.entry i).node.Names l := by
  simp only [sourceLabels, List.mem_append, List.mem_sigma] at h
  rcases h with ⟨hi, hl⟩ | ⟨hi, hl⟩ | ⟨hi, hl⟩
  · obtain ⟨clock, hclock, rfl⟩ := mem_clockLabels.1 hl
    exact ⟨lt_of_mem_stageOrder hd hi, .uniform hclock⟩
  · have hlt := List.mem_range.1 hi
    have hlabels : l ∈ (ofDiagram d).labels .vertex i := List.mem_append_right _ hl
    exact ⟨hlt, names_of_mem_labels hd hp hlt hlabels⟩
  · have hlt := lt_of_mem_stageOrder hd hi
    have hlabels : l ∈ (ofDiagram d).labels stage i := List.mem_append_left _ hl
    exact ⟨hlt, names_of_mem_labels hd hp hlt hlabels⟩

theorem nodup_declared {source : StageSource} (h : (ofDiagram d).emit stage = .ok source) :
    source.declared.Nodup := by
  rw [declared_eq hd hp h]
  refine (nodup_sourceLabels hd stage).map_on ?_
  rintro ⟨i, l⟩ hi ⟨j, l'⟩ hj he
  obtain ⟨rfl, rfl⟩ := hd.label_inj (names_of_mem_sourceLabels hd hp hi).1
    (names_of_mem_sourceLabels hd hp hj).1 he
  rfl

end Plan

/-- In a shader, no stage declares a name twice, be it a uniform, a varying or a variable. Over the
whole walk no name is generated for two instances or for two labels of one instance. -/
theorem Store.generated_names_distinct {s : Store} {root : NodeId} {shader : Shader}
    (hc : s.compile root = .ok shader) :
    ∃ w, Walk.discover s root = .ok w ∧ (∀ stage, (shader.stage stage).declared.Nodup) ∧
      ∀ n ∈ w.ids, ∀ m ∈ w.ids, ∀ l l',
        (Walk.entryIn s w.ids n).label l = (Walk.entryIn s w.ids m).label l' → n = m ∧ l = l' := by
  obtain ⟨-, w, hdisc, hplan⟩ := (s.compile_eq_ok_iff root shader).1 hc
  have hw := Walk.discover_ok hdisc
  have hp := Plan.portsFit_of_compile hplan
  refine ⟨w, hdisc, fun stage => ?_, fun n hn m hm l l' he => ?_⟩
  · exact Plan.nodup_declared hw.wellFormed hp (Plan.emit_of_compile hplan stage)
  · rw [← hw.entry_idxOf hn, ← hw.entry_idxOf hm] at he
    obtain ⟨hnm, rfl⟩ := hw.wellFormed.label_inj (hw.idxOf_lt hn) (hw.idxOf_lt hm) he
    exact ⟨(List.idxOf_inj hn).1 hnm, rfl⟩

theorem generated_names_distinct_pulse : ∃ shader w, pulse.compile ⟨3⟩ = .ok shader ∧
    Walk.discover pulse ⟨3⟩ = .ok w ∧
    shader.vertex.declared.Nodup ∧ shader.fragment.declared.Nodup ∧
    ∀ n ∈ w.ids, ∀ l l',
      (Walk.entryIn pulse w.ids ⟨3⟩).label l = (Walk.entryIn pulse w.ids n).label l' →
        ⟨3⟩ = n ∧ l = l' := by
  obtain ⟨shader, hc⟩ := pulse_compiles
  obtain ⟨w, hd, hdeclared, hlabels⟩ := Store.generated_names_distinct hc
  have hroot : ⟨3⟩ ∈ w.ids := (Walk.discover_ok hd).root_mem
  exact ⟨shader, w, hc, hd, hdeclared .vertex, hdeclared .fragment, hlabels ⟨3⟩ hroot⟩

end ShaderGraph
