import ShaderGraph.Proofs.Emission
import ShaderGraph.Proofs.Naming

/-!
# What a stage declares

The block of a node declares its inputs that are no edges and its outputs, and in the vertex stage
it assigns what is handed over (`targets_block`). So the nodes of a stage together write no name
twice (`nodup_targets`). The wired slots of a stage write their targets (`targets_slots`).
-/

namespace ShaderGraph

/-- The name that a statement writes. -/
def Statement.target? : Statement → Option String
  | .declare _ name _ => some name
  | .assign target _ => some target
  | .comment _ | .block _ => none

def targets (l : List Statement) : List String := l.filterMap Statement.target?

/-- A name stands in a text, between characters that can be no part of it. -/
def Glsl.Mentions (text name : String) : Prop :=
  ∃ front behind, text.toList = front ++ (name.toList ++ behind) ∧
    (∀ c, front.getLast? = some c → isWordChar c = false) ∧
    ∀ c, behind.head? = some c → isWordChar c = false

/-- The left side of a statement is the name, a part of it or anything else around it. -/
def Statement.MayWrite (st : Statement) (name : String) : Prop :=
  ∃ target, st.target? = some target ∧ Glsl.Mentions target name

theorem Glsl.Mentions.refl (name : String) : Mentions name name :=
  ⟨[], [], by simp, nofun, nofun⟩

/-- A single word mentions nothing but itself. -/
theorem Glsl.Mentions.eq_of_isWordChar {text name : String} (h : Mentions text name)
    (hchars : ∀ c ∈ text.toList, isWordChar c = true) : text = name := by
  obtain ⟨front, behind, htext, hfront, hbehind⟩ := h
  rw [htext] at hchars
  have hnone : front = [] := by
    refine List.getLast?_eq_none_iff.1 (Option.eq_none_iff_forall_ne_some.2 fun c hc => ?_)
    have hword := hchars c (List.mem_append_left _ (List.mem_of_getLast? hc))
    rw [hfront c hc] at hword
    cases hword
  have hrest : behind = [] := by
    refine List.head?_eq_none_iff.1 (Option.eq_none_iff_forall_ne_some.2 fun c hc => ?_)
    have hword := hchars c (List.mem_append_right _ (List.mem_append_right _ (List.mem_of_head? hc)))
    rw [hbehind c hc] at hword
    cases hword
  rw [← String.toList_inj, htext, hnone, hrest]
  simp

theorem targets_append (l l' : List Statement) : targets (l ++ l') = targets l ++ targets l' :=
  List.filterMap_append

theorem targets_flatten (l : List (List Statement)) : targets l.flatten = l.flatMap targets := by
  rw [targets, List.filterMap_flatten, List.flatMap_def]
  rfl

namespace Plan

variable {p : Plan} {stage : Stage}

/-- What the outputs of a node are assigned to in a stage. -/
def handedLabels (p : Plan) (stage : Stage) (i : Nat) : List Label :=
  match stage with
  | .vertex => (p.share i).varyings.map .varying
  | .fragment => []

/-- What the block of a node has names for, in the order of its statements. -/
def labels (p : Plan) (stage : Stage) (i : Nat) : List Label :=
  ((p.diagram.entry i).node.inputs.entries.filter fun input => input.2.edge?.isNone).map
      (fun input => .input input.1) ++
    (p.diagram.design i).outputs.keys.map .output ++ p.handedLabels stage i

theorem targets_wire {e : Entry} {name : String} {port : Port Nat} {w : Wire}
    (h : p.wire stage e name port = .ok w) :
    targets w.statements = if port.edge?.isNone then [e.label (.input name)] else [] := by
  simp only [wire] at h
  split at h
  · cases h
  · rename_i v hs
    cases h
    simp [Port.edge?, hs, Source.edge?, targets, Statement.target?, Entry.label]
  · rename_i expr hs
    cases h
    simp [Port.edge?, hs, Source.edge?, targets, Statement.target?, Entry.label]
  · rename_i producer output hs
    obtain ⟨expr, -, h⟩ := (bind_eq_ok_iff _ _ _).1 h
    cases h
    simp [Port.edge?, hs, Source.edge?, targets]

theorem targets_wires {e : Entry} : ∀ {inputs : List (String × Port Nat)} {wires : List Wire},
    inputs.mapM (fun input => p.wire stage e input.1 input.2) = .ok wires →
      targets (wires.flatMap Wire.statements) =
        ((inputs.filter fun input => input.2.edge?.isNone).map
          fun input => Label.input input.1).map e.label
  | [], wires, h => by
    rw [mapM_eq_ok_iff, List.forall₂_nil_left_iff] at h
    subst h
    rfl
  | (name, port) :: inputs, wires, h => by
    rw [mapM_eq_ok_iff, List.forall₂_cons_left_iff] at h
    obtain ⟨w, wires, hw, hrest, rfl⟩ := h
    have ih := targets_wires ((mapM_eq_ok_iff _ _ _).2 hrest)
    rw [List.flatMap_cons, targets_append, targets_wire hw, ih]
    rcases hedge : port.edge? with _ | _ <;> simp [hedge]

theorem targets_outputs {e : Entry} {wires : List Wire} :
    ∀ {outputs : List (String × Output)} {statements : List Statement},
    outputs.mapM (fun output => e.declaration stage wires output.1 output.2) = .ok statements →
      targets statements = ((outputs.map Prod.fst).map Label.output).map e.label
  | [], _, h => by
    rw [mapM_eq_ok_iff, List.forall₂_nil_left_iff] at h
    subst h
    rfl
  | output :: outputs, _, h => by
    rw [mapM_eq_ok_iff, List.forall₂_cons_left_iff] at h
    obtain ⟨st, statements, hst, hrest, rfl⟩ := h
    have ih := targets_outputs ((mapM_eq_ok_iff _ _ _).2 hrest)
    obtain ⟨init, rfl⟩ := declaration_eq_ok hst
    exact congrArg (_ :: ·) ih

/-- A node has one scope of its own at most. -/
theorem scope_eq_ok {e : Entry} {wires : List Wire} {statements : List Statement}
    (h : e.scope stage wires = .ok statements) :
    statements = [] ∨ ∃ text, statements = [.block text] := by
  unfold Entry.scope at h
  split at h
  · obtain ⟨text, -, h⟩ := (bind_eq_ok_iff _ _ _).1 h
    cases h
    exact .inr ⟨text, rfl⟩
  · cases h
    exact .inl rfl

theorem targets_scope {e : Entry} {wires : List Wire} {statements : List Statement}
    (h : e.scope stage wires = .ok statements) : targets statements = [] := by
  rcases scope_eq_ok h with rfl | ⟨text, rfl⟩ <;> rfl

theorem targets_handOver (p : Plan) (stage : Stage) (i : Nat) :
    targets (p.handOver stage i) = (p.handedLabels stage i).map (p.diagram.entry i).label := by
  cases stage with
  | fragment => rfl
  | vertex =>
    simp only [targets, handOver, handedLabels, List.map_map, List.filterMap_map]
    exact congrFun List.filterMap_eq_map _

/-- The block of a node writes the names of its labels in order. -/
theorem targets_block {i : Nat} {block : List Statement} (h : p.emitNode stage i = .ok block) :
    targets block = (p.labels stage i).map (p.diagram.entry i).label := by
  obtain ⟨wires, outputs, scope, hw, ho, hs, rfl⟩ := (emitNode_eq_ok_iff stage i block).1 h
  have hcomment : ∀ text l, targets (.comment text :: l) = targets l := fun _ _ => rfl
  simp only [hcomment, targets_append, targets_wires hw, targets_outputs ho, targets_scope hs,
    targets_handOver, labels, List.map_append, List.append_nil, Table.keys]
  rfl

theorem targets_blocks {order : List Nat} {blocks : List (List Statement)}
    (h : order.mapM (p.emitNode stage) = .ok blocks) :
    targets blocks.flatten =
      order.flatMap fun i => (p.labels stage i).map (p.diagram.entry i).label := by
  rw [targets_flatten]
  exact flatMap_of_mapM (fun _ _ => targets_block) h

/-- The targets of the wired slots of a stage. -/
def slotTargets (p : Plan) (stage : Stage) : List String :=
  (p.wiredSlots.filter fun slot => slot.2.stage = stage).map fun slot => slot.2.target

theorem isSome_of_slotValue {name : String} {port : Port Nat} {value : Option String}
    (h : p.slotValue stage name port = .ok value) : value.isSome = port.source.isSome := by
  simp only [slotValue] at h
  split at h <;> rename_i hs <;> rw [hs]
  · cases h
    rfl
  · cases h
    rfl
  · cases h
    rfl
  · obtain ⟨expr, -, h⟩ := (bind_eq_ok_iff _ _ _).1 h
    cases h
    rfl

/-- What the input of a slot is resolved to in a stage. -/
def SlotHas (p : Plan) (stage : Stage) (name value : String) : Prop :=
  ∃ port, p.diagram.root.node.inputs.get? name = some port ∧
    p.slotValue stage name port = .ok (some value)

/-- A slot is emitted as one assignment if it belongs to the stage and is wired, and as nothing
otherwise. -/
theorem emitSlot_eq_ok {name : String} {slot : Slot} {l : List Statement}
    (h : p.emitSlot stage name slot = .ok l) :
    if slot.stage = stage ∧ ((p.diagram.root.node.inputs.get? name).bind Port.source).isSome then
      ∃ value, p.SlotHas stage name value ∧ l = [.assign slot.target (slot.expression value)]
    else l = [] := by
  simp only [emitSlot] at h
  by_cases hst : slot.stage = stage
  · simp only [hst, ne_eq, not_true_eq_false, if_false] at h
    rcases hg : p.diagram.root.node.inputs.get? name with _ | port <;> simp only [hg] at h
    · cases h
      simp
    · obtain ⟨value, hvalue, h⟩ := (bind_eq_ok_iff _ _ _).1 h
      have hsome := isSome_of_slotValue hvalue
      rcases value with _ | value <;> cases h
      · simp [← hsome]
      · rw [if_pos ⟨hst, by simpa using hsome.symm⟩]
        exact ⟨value, ⟨port, hg, hvalue⟩, rfl⟩
  · simp only [ne_eq, hst, not_false_eq_true, if_true] at h
    cases h
    simp [hst]

/-- The wired slots of a stage are emitted as one assignment each, in their order. -/
theorem slots_of_mapM : ∀ {entries : List (String × Slot)} {slots : List (List Statement)},
    entries.mapM (fun slot => p.emitSlot stage slot.1 slot.2) = .ok slots →
      ∃ writes : List (String × String),
        slots.flatten = writes.map (fun write => .assign write.1 write.2) ∧
        List.Forall₂ (fun slot write => ∃ value, p.SlotHas stage slot.1 value ∧
            write = (slot.2.target, slot.2.expression value))
          ((entries.filter fun slot =>
            ((p.diagram.root.node.inputs.get? slot.1).bind Port.source).isSome).filter
              fun slot => slot.2.stage = stage) writes
  | [], _, h => by
    rw [mapM_eq_ok_iff, List.forall₂_nil_left_iff] at h
    subst h
    exact ⟨[], rfl, .nil⟩
  | (name, slot) :: entries, _, h => by
    rw [mapM_eq_ok_iff, List.forall₂_cons_left_iff] at h
    obtain ⟨l, slots, hl, hrest, rfl⟩ := h
    obtain ⟨writes, hwrites, ih⟩ := slots_of_mapM ((mapM_eq_ok_iff _ _ _).2 hrest)
    have hslot := emitSlot_eq_ok hl
    rw [List.flatten_cons, hwrites]
    split_ifs at hslot with hw
    · obtain ⟨value, hvalue, rfl⟩ := hslot
      refine ⟨(slot.target, slot.expression value) :: writes, rfl, ?_⟩
      rw [List.filter_cons_of_pos (by exact hw.2),
        List.filter_cons_of_pos (by simpa using hw.1)]
      exact .cons ⟨value, hvalue, rfl⟩ ih
    · subst hslot
      refine ⟨writes, rfl, ?_⟩
      by_cases hsome : ((p.diagram.root.node.inputs.get? name).bind Port.source).isSome = true
      · have hst : ¬ slot.stage = stage := fun hst => hw ⟨hst, hsome⟩
        rwa [List.filter_cons_of_pos (by exact hsome),
          List.filter_cons_of_neg (by simpa using hst)]
      · rwa [List.filter_cons_of_neg (by exact hsome)]

theorem targets_assigns (writes : List (String × String)) :
    targets (writes.map fun write => .assign write.1 write.2) = writes.map Prod.fst := by
  rw [targets, List.filterMap_map]
  exact congrFun List.filterMap_eq_map _

theorem targets_slots_of_mapM {entries : List (String × Slot)} {slots : List (List Statement)}
    (h : entries.mapM (fun slot => p.emitSlot stage slot.1 slot.2) = .ok slots) :
    targets slots.flatten = ((entries.filter fun slot =>
      ((p.diagram.root.node.inputs.get? slot.1).bind Port.source).isSome).filter
        fun slot => slot.2.stage = stage).map fun slot => slot.2.target := by
  obtain ⟨writes, hwrites, hslots⟩ := slots_of_mapM h
  rw [hwrites, targets_assigns, ← List.forall₂_eq_eq_eq, List.forall₂_map_left_iff,
    List.forall₂_map_right_iff]
  refine hslots.flip.imp ?_
  rintro write slot ⟨value, -, rfl⟩
  rfl

theorem targets_slots {slots : List (List Statement)}
    (h : p.diagram.root.node.design.slots.entries.mapM
      (fun slot => p.emitSlot stage slot.1 slot.2) = .ok slots) :
    targets slots.flatten = p.slotTargets stage :=
  targets_slots_of_mapM h

theorem nodup_labels {i : Nat} (h : (p.share i).varyings.Nodup) :
    (p.labels stage i).Nodup := by
  have hinputs : (((p.diagram.entry i).node.inputs.entries.filter
      fun input => input.2.edge?.isNone).map fun input => Label.input input.1).Nodup := by
    have hkeys := ((p.diagram.entry i).node.inputs.nodup.sublist
      ((List.filter_sublist (p := fun input => input.2.edge?.isNone)).map Prod.fst)).map
      (f := Label.input) fun a b he => by cases he; rfl
    rwa [List.map_map] at hkeys
  have houtputs : ((p.diagram.design i).outputs.keys.map Label.output).Nodup :=
    (p.diagram.design i).outputs.nodup.map fun a b he => by cases he; rfl
  have hhanded : (p.handedLabels stage i).Nodup := by
    cases stage with
    | vertex => exact h.map fun a b he => by cases he; rfl
    | fragment => exact List.nodup_nil
  have hmem : ∀ l ∈ p.handedLabels stage i, ∃ o, l = .varying o := by
    intro l hl
    cases stage with
    | vertex =>
      obtain ⟨o, -, rfl⟩ := List.mem_map.1 hl
      exact ⟨o, rfl⟩
    | fragment => cases hl
  refine List.nodup_append.2 ⟨List.nodup_append.2 ⟨hinputs, houtputs, ?_⟩, hhanded, ?_⟩
  · rintro _ hi _ ho rfl
    obtain ⟨_, -, rfl⟩ := List.mem_map.1 hi
    obtain ⟨_, -, he⟩ := List.mem_map.1 ho
    cases he
  · rintro l hl _ hv rfl
    obtain ⟨o, rfl⟩ := hmem l hv
    rcases List.mem_append.1 hl with hl | hl
    · obtain ⟨_, -, he⟩ := List.mem_map.1 hl
      cases he
    · obtain ⟨_, -, he⟩ := List.mem_map.1 hl
      cases he

section Stages

variable {d : Diagram} (hd : d.WellFormed) (hp : (ofDiagram d).PortsFit)
include hd

/-- No two statements of the nodes of a stage write the same name. -/
theorem nodup_targets {nodes : List (List Statement)}
    (h : ((ofDiagram d).stageOrder stage).mapM ((ofDiagram d).emitNode stage) = .ok nodes) :
    (targets nodes.flatten).Nodup := by
  rw [targets_blocks h, List.nodup_flatMap]
  have hlt : ∀ i ∈ (ofDiagram d).stageOrder stage, i < d.entries.length :=
    fun i hi => lt_of_mem_stageOrder hd hi
  refine ⟨fun i hi => ?_, ?_⟩
  · refine List.Nodup.map (fun l l' he => (hd.label_inj (hlt i hi) (hlt i hi) he).2) ?_
    exact nodup_labels ((Diagram.shares_settled hd).nodup i (hlt i hi))
  · refine (nodup_stageOrder hd).imp_of_mem fun {i j} hi hj hne name hi' hj' => ?_
    obtain ⟨l, -, rfl⟩ := List.mem_map.1 hi'
    obtain ⟨l', -, he⟩ := List.mem_map.1 hj'
    exact hne (hd.label_inj (hlt i hi) (hlt j hj) he.symm).1

include hp in
theorem names_of_mem_labels {i : Nat} (hi : i < d.entries.length) {l : Label}
    (hl : l ∈ (ofDiagram d).labels stage i) : (d.entry i).node.Names l := by
  unfold labels at hl
  simp only [List.mem_append, List.mem_map, List.mem_filter] at hl
  rcases hl with (⟨⟨name, port⟩, ⟨hm, -⟩, rfl⟩ | ⟨o, ho, rfl⟩) | hl
  · exact .input (Table.mem_keys_of_mem hm)
  · exact .output ho
  · cases stage with
    | fragment => cases hl
    | vertex =>
      obtain ⟨o, ho, rfl⟩ := List.mem_map.1 hl
      obtain ⟨⟨spec, hspec⟩, -⟩ := of_mem_varyings hd hp hi ho
      exact .varying (Table.mem_keys_of_get? hspec)

section Targets

variable {nodes : List (List Statement)}
variable (hn : ((ofDiagram d).stageOrder stage).mapM ((ofDiagram d).emitNode stage) = .ok nodes)
include hp hn

omit hd hp in
theorem mem_targets_iff {name : String} : name ∈ targets nodes.flatten ↔
    ∃ i ∈ (ofDiagram d).stageOrder stage, ∃ l ∈ (ofDiagram d).labels stage i,
      (d.entry i).label l = name := by
  rw [targets_blocks hn]
  simp only [List.mem_flatMap, List.mem_map]
  rfl

theorem generated_of_mem_targets {name : String} (h : name ∈ targets nodes.flatten) :
    d.Generated name := by
  obtain ⟨i, hi, l, hl, rfl⟩ := (mem_targets_iff hn).1 h
  have hlt := lt_of_mem_stageOrder hd hi
  exact ⟨i, hlt, l, names_of_mem_labels hd hp hlt hl, rfl⟩

omit hp in
theorem uniform_notMem_targets {i : Nat} (hi : i < d.entries.length) (clock : Clock) :
    (d.entry i).uniformName clock ∉ targets nodes.flatten := by
  intro h
  obtain ⟨j, hj, l, hl, he⟩ := (mem_targets_iff hn).1 h
  change _ = (d.entry i).label (.uniform clock.uniform) at he
  obtain ⟨-, rfl⟩ := hd.label_inj (lt_of_mem_stageOrder hd hj) hi he
  unfold labels handedLabels at hl
  cases stage <;> simp at hl

omit hp in
theorem varying_notMem_targets (hst : stage = .fragment) {i : Nat} (hi : i < d.entries.length)
    (o : String) : (d.entry i).varyingName o ∉ targets nodes.flatten := by
  intro h
  obtain ⟨j, hj, l, hl, he⟩ := (mem_targets_iff hn).1 h
  change _ = (d.entry i).label (.varying o) at he
  obtain ⟨-, rfl⟩ := hd.label_inj (lt_of_mem_stageOrder hd hj) hi he
  subst hst
  unfold labels handedLabels at hl
  simp at hl

end Targets

end Stages

/-! ## Places -/

variable {d : Diagram}

/-- The statements up to the declarations of the node's inputs. -/
def Place.front {statements : List Statement} {i : Nat} (q : Place d stage statements i) :
    List Statement :=
  q.blocks.flatten ++ .comment q.comment :: q.wires.flatMap Wire.statements

theorem Place.output_mem_front {statements : List Statement} {i : Nat}
    (q : Place d stage statements i) {j : Nat} (hj : j ∈ d.producers i)
    (hmem : j ∈ (ofDiagram d).stageOrder stage) {o : String} {spec : Output}
    (hspec : (d.design j).outputs.get? o = some spec) :
    (d.entry j).outputName o ∈ targets q.front := by
  obtain ⟨block, hblock, hok⟩ := mem_of_mapM q.blocks_eq (q.producers j hj hmem)
  obtain ⟨init, hdecl⟩ := declare_mem_of_emitNode hok hspec
  have hflat := List.mem_flatten_of_mem hblock hdecl
  exact List.mem_filterMap.2 ⟨_, List.mem_append_left _ hflat, rfl⟩

end Plan

end ShaderGraph
