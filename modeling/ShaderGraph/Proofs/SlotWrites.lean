import ShaderGraph.Proofs.Linkage
import ShaderGraph.Proofs.SourceText

/-!
# Writes of slots

The check of the slots stops at the first wired slot whose target is taken, and names it together
with the only wired slot before it that has this target (`checkSlots_eq_error_iff`). The main
function of a stage ends with one assignment for each wired slot of the stage, whose expression is
the slot's template with what its input is resolved to in place of every placeholder
(`slot_writes`).
-/

namespace ShaderGraph

theorem foldlM_eq_error_iff {ε α β : Type} {f : β → α → Except ε β} {e : ε} :
    ∀ (l : List α) (b : β), l.foldlM f b = .error e ↔ ∃ before a after b',
      l = before ++ a :: after ∧ before.foldlM f b = .ok b' ∧ f b' a = .error e
  | [], b => by simp [pure, Except.pure]
  | a :: l, b => by
    rw [List.foldlM_cons]
    rcases ha : f b a with e' | b'
    · refine ⟨fun h => ⟨[], a, l, b, rfl, rfl, ha.trans h⟩, ?_⟩
      rintro ⟨_ | ⟨_, before⟩, _, _, _, hl, hbefore, h⟩ <;> cases hl
      · cases hbefore
        exact ha.symm.trans h
      · rw [List.foldlM_cons, ha] at hbefore
        cases hbefore
    · change l.foldlM f b' = .error e ↔ _
      rw [foldlM_eq_error_iff l b']
      constructor
      · rintro ⟨before, a', after, b'', rfl, hbefore, h⟩
        refine ⟨a :: before, a', after, b'', rfl, ?_, h⟩
        rw [List.foldlM_cons, ha]
        exact hbefore
      · rintro ⟨_ | ⟨_, before⟩, a', after, b'', hl, hbefore, h⟩ <;> cases hl
        · cases hbefore
          cases ha.symm.trans h
        · rw [List.foldlM_cons, ha] at hbefore
          exact ⟨before, a', after, b'', rfl, hbefore, h⟩

namespace Plan

/-! ## Taken targets -/

/-- Among slots, `second` is the first one whose target is taken, and `first` is the only one before
it that has this target. -/
def TakenTwice (slots : List (String × Slot)) (target first second : String) : Prop :=
  ∃ before slot after writer, slots = before ++ (second, slot) :: after ∧ slot.target = target ∧
    (before.map fun other => other.2.target).Nodup ∧
    (first, writer) ∈ before ∧ writer.target = target ∧
    ∀ other ∈ before, other.2.target = target → other = (first, writer)

theorem takeTarget_eq_error_iff (writers : List (String × String)) (slot : String × Slot)
    (e : CompileError) : takeTarget writers slot = .error e ↔
      ∃ writer, writers.find? (·.1 = slot.2.target) = some writer ∧
        e = .duplicateSlotWrite slot.2.target writer.2 slot.1 := by
  simp only [takeTarget]
  split <;> rename_i hf <;> simp [hf, eq_comm]

theorem foldlM_takeTarget_eq_ok : ∀ {slots : List (String × Slot)}
    {writers r : List (String × String)}, slots.foldlM takeTarget writers = .ok r →
      r = (slots.map fun slot => (slot.2.target, slot.1)).reverse ++ writers
  | [], _, _, h => by
    cases h
    rfl
  | slot :: slots, writers, r, h => by
    rw [List.foldlM_cons] at h
    obtain ⟨_, hslot, h⟩ := (bind_eq_ok_iff _ _ _).1 h
    obtain ⟨-, rfl⟩ := (takeTarget_eq_ok_iff _ _ _).1 hslot
    rw [foldlM_takeTarget_eq_ok h, List.map_cons, List.reverse_cons, List.append_assoc]
    rfl

theorem foldlM_takeTarget_eq_error_iff (slots : List (String × Slot)) (e : CompileError) :
    slots.foldlM takeTarget [] = .error e ↔ ∃ target first second,
      e = .duplicateSlotWrite target first second ∧ TakenTwice slots target first second := by
  rw [foldlM_eq_error_iff]
  constructor
  · rintro ⟨before, ⟨second, slot⟩, after, writers, hslots, hbefore, htake⟩
    obtain ⟨hnodup, -⟩ := (foldlM_takeTarget_isOk_iff before []).1 ⟨_, hbefore⟩
    obtain rfl := foldlM_takeTarget_eq_ok hbefore
    obtain ⟨taken, hfind, rfl⟩ := (takeTarget_eq_error_iff _ _ _).1 htake
    have htarget : taken.1 = slot.target := by simpa using List.find?_some hfind
    have hmem := List.mem_of_find?_eq_some hfind
    simp only [List.append_nil, List.mem_reverse, List.mem_map] at hmem
    obtain ⟨⟨first, writer⟩, hmem, rfl⟩ := hmem
    refine ⟨slot.target, first, second, rfl, before, slot, after, writer, hslots, rfl, hnodup,
      hmem, htarget, fun other hother heq => ?_⟩
    exact List.inj_on_of_nodup_map hnodup hother hmem (heq.trans htarget.symm)
  · rintro ⟨_, first, second, rfl, before, slot, after, writer, hslots, rfl, hnodup, hmem, htarget,
      honly⟩
    obtain ⟨writers, hbefore⟩ := (foldlM_takeTarget_isOk_iff before []).2 ⟨hnodup, by simp⟩
    refine ⟨before, (second, slot), after, writers, hslots, hbefore, ?_⟩
    obtain rfl := foldlM_takeTarget_eq_ok hbefore
    refine (takeTarget_eq_error_iff _ _ _).2 ?_
    have hheld : (slot.target, first) ∈
        (before.map fun other => (other.2.target, other.1)).reverse ++ [] := by
      rw [List.append_nil, List.mem_reverse]
      exact List.mem_map.2 ⟨_, hmem, Prod.ext htarget rfl⟩
    rcases hfind : List.find? (·.1 = slot.target)
        ((before.map fun other => (other.2.target, other.1)).reverse ++ []) with _ | taken
    · simp only [List.find?_eq_none, decide_eq_true_eq] at hfind
      exact absurd rfl (hfind _ hheld)
    · have htaken : taken.1 = slot.target := by simpa using List.find?_some hfind
      have hm := List.mem_of_find?_eq_some hfind
      simp only [List.append_nil, List.mem_reverse, List.mem_map] at hm
      obtain ⟨other, hother, rfl⟩ := hm
      obtain rfl := honly other hother htaken
      exact ⟨_, hfind, rfl⟩

theorem checkSlots_eq_error_iff (p : Plan) (e : CompileError) :
    p.checkSlots = .error e ↔ ∃ target first second,
      e = .duplicateSlotWrite target first second ∧
        TakenTwice p.wiredSlots target first second := by
  rw [← foldlM_takeTarget_eq_error_iff]
  have h : p.checkSlots = p.wiredSlots.foldlM takeTarget [] >>= fun _ => .ok () := rfl
  rw [h]
  rcases p.wiredSlots.foldlM takeTarget [] with e' | writers <;> simp [bind, Except.bind]

/-- A target is taken twice exactly if two slots have it. -/
theorem exists_takenTwice_iff (p : Plan) :
    (∃ target first second, TakenTwice p.wiredSlots target first second) ↔ ¬ p.SlotsApart := by
  rw [← checkSlots_eq_ok_iff]
  rcases hc : p.checkSlots with e | u
  · obtain ⟨target, first, second, -, h⟩ := (p.checkSlots_eq_error_iff e).1 hc
    simpa using ⟨target, first, second, h⟩
  · refine iff_of_false ?_ (fun h => h rfl)
    rintro ⟨target, first, second, h⟩
    have herror := (p.checkSlots_eq_error_iff _).2 ⟨target, first, second, rfl, h⟩
    rw [hc] at herror
    cases herror

variable {p : Plan}

/-- Once the ports fit, only the check of the slots finds a target that is written twice. -/
theorem compile_eq_duplicate_iff (hp : p.PortsFit) (hd : p.diagram.WellFormed)
    (target first second : String) :
    p.compile = .error (.duplicateSlotWrite target first second) ↔
      TakenTwice p.wiredSlots target first second := by
  have hchecked : p.compile = p.checkSlots >>= fun _ => do
      return ⟨← p.emit .vertex, ← p.emit .fragment, p.uniforms⟩ := by
    rw [compile, (p.checkPorts_eq_ok_iff).2 hp]
    rfl
  have hcheck := p.checkSlots_eq_error_iff (.duplicateSlotWrite target first second)
  simp only [CompileError.duplicateSlotWrite.injEq] at hcheck
  rw [hchecked]
  rcases hc : p.checkSlots with e | u <;> rw [hc] at hcheck
  · change (Except.error e : Except CompileError Shader) = _ ↔ _
    rw [Except.error.injEq] at hcheck ⊢
    refine hcheck.trans ⟨?_, fun h => ⟨_, _, _, ⟨rfl, rfl, rfl⟩, h⟩⟩
    rintro ⟨_, _, _, ⟨rfl, rfl, rfl⟩, h⟩
    exact h
  · refine iff_of_false (fun h => ?_) fun h => ?_
    · have hfails : OnlyFails CompileError.IsUnresolved (do
          return (⟨← p.emit .vertex, ← p.emit .fragment, p.uniforms⟩ : Shader)) :=
        .bind (emit_onlyFails hp hd _) fun _ _ => .bind (emit_onlyFails hp hd _) fun _ _ => .ok _
      obtain ⟨_, _, _, he⟩ := hfails _ h
      cases he
    · cases hcheck.2 ⟨_, _, _, ⟨rfl, rfl, rfl⟩, h⟩

end Plan

/-! ## Assignments -/

/-- The wired slots of a root in the order of their declarations. -/
def Store.wiredSlots (s : Store) (root : NodeId) : List (String × Slot) :=
  (s.design root).slots.entries.filter fun slot =>
    (((s.get root).inputs.get? slot.1).bind Port.source).isSome

/-- What the source of a port of a kind is resolved to in a stage. -/
inductive Walk.Resolved (s : Store) (w : Walk) (stage : Stage) (kind : Kind) :
    Source NodeId → String → Prop
  | literal (value : Value) :
    Resolved s w stage kind (.literal value) (Glsl.widen value.toGlsl value.kind kind)
  | raw (expr : String) : Resolved s w stage kind (.raw expr) expr
  | edge {producer : NodeId} {output : String} {spec : Output}
      (hspec : (s.design producer).outputs.get? output = some spec) :
    Resolved s w stage kind (.edge producer output) (Glsl.widen
      (if stage = .fragment ∧ (s.design producer).interpolated = true then
        (entryIn s w.ids producer).varyingName output
      else (entryIn s w.ids producer).outputName output) spec.kind kind)

/-- A slot writes its target, with what its input is resolved to in place of the placeholders of
its template. -/
def Walk.WritesSlot (s : Store) (root : NodeId) (w : Walk) (stage : Stage) (slot : String × Slot)
    (write : String × String) : Prop :=
  ∃ port source value, (slot.1, port) ∈ (s.get root).inputs.entries ∧ port.source = some source ∧
    w.Resolved s stage port.kind source value ∧ write.1 = slot.2.target ∧
    Slot.Fills slot.2.template.toList value.toList write.2.toList

namespace Walk.Explores

variable {s : Store} {root : NodeId} {w : Walk} (hw : Explores s root w)
include hw

theorem wiredSlots_eq : (Plan.ofDiagram w.diagram).wiredSlots = s.wiredSlots root := by
  have hroot : (Plan.ofDiagram w.diagram).diagram.root.node = _ := hw.root_node
  simp only [Plan.wiredSlots, hroot, Store.wiredSlots]
  refine List.filter_congr fun slot _ => ?_
  simp only [Node.map, Table.get?_map]
  rcases (s.get root).inputs.get? slot.1 with _ | port
  · rfl
  · simp [Port.map]

/-- An input of a slot is resolved to what its source in the store is. -/
theorem resolved_of_slotHas (hmaster : (s.design root).isMaster = true)
    (hp : (Plan.ofDiagram w.diagram).PortsFit) {name : String} {slot : Slot}
    (hslot : (name, slot) ∈ (s.design root).slots.entries) {value : String}
    (h : (Plan.ofDiagram w.diagram).SlotHas slot.stage name value) :
    ∃ port source, (name, port) ∈ (s.get root).inputs.entries ∧ port.source = some source ∧
      w.Resolved s slot.stage port.kind source value := by
  obtain ⟨port', hget, hvalue⟩ := h
  have hm' := (Table.get?_eq_some_iff _ _ _).1 hget
  have hroot : (Plan.ofDiagram w.diagram).diagram.root.node = _ := hw.root_node
  obtain ⟨port, hm, rfl⟩ := (Node.mem_inputs_map _ _ _ _).1 (hroot ▸ hm')
  rcases hs : port.source with _ | source
  · have hsome := Plan.isSome_of_slotValue hvalue
    simp [Port.map, hs] at hsome
  have hs' : (port.map w.ids.idxOf).source = some (source.map w.ids.idxOf) := by
    simp [Port.map, hs]
  refine ⟨port, source, hm, hs, ?_⟩
  rcases source with v | expr | ⟨producer, output⟩ <;>
    simp only [Plan.slotValue, hs', Source.map] at hvalue
  · cases hvalue
    exact .literal _
  · cases hvalue
    exact .raw _
  · have hd := hw.wellFormed
    have hreads : (w.diagram.design 0).ReadsIn name
        ((Plan.ofDiagram w.diagram).share 0).stages slot.stage := by
      rw [hw.design_zero, Design.ReadsIn, if_pos hmaster]
      exact ⟨slot, (Table.get?_eq_some_iff _ _ _).2 hslot, rfl⟩
    have hmem : producer ∈ w.ids := hw.producer_mem hw.root_mem ((Node.mem_producers _ _).2
      ⟨name, output, port, hm, (port.edge?_eq_some_iff _ _).2 hs⟩)
    have he := ((port.map w.ids.idxOf).edge?_eq_some_iff _ _).2 hs'
    obtain ⟨spec, hspec, -, -, href⟩ := hp.exists_reference hd hd.nonempty hm' he
    rw [href, Plan.variableOf_of_readsIn hd hd.nonempty ⟨_, hm', he⟩ hreads,
      hw.design_idxOf hmem, hw.entry_idxOf hmem] at hvalue
    cases hvalue
    refine .edge ?_
    rw [← hw.design_idxOf hmem]
    exact hspec

end Walk.Explores

namespace Store

variable {s : Store} {root : NodeId}

/-- A master whose ports are checked fails for a target exactly if two wired slots have one target,
with the first slot whose target is taken and the slot that took it. -/
theorem compile_eq_duplicate_iff (hmaster : (s.design root).isMaster = true) {w : Walk}
    (hd : Walk.discover s root = .ok w) (hports : (Plan.ofDiagram w.diagram).checkPorts = .ok ())
    (target first second : String) :
    s.compile root = .error (.duplicateSlotWrite target first second) ↔
      Plan.TakenTwice (s.wiredSlots root) target first second := by
  have hw := Walk.discover_ok hd
  have hc : s.compile root = (Plan.ofDiagram w.diagram).compile := by
    simp only [compile, hmaster, hd]
    rfl
  rw [hc, Plan.compile_eq_duplicate_iff ((Plan.checkPorts_eq_ok_iff _).1 hports) hw.wellFormed,
    hw.wiredSlots_eq]

/-- How the main function of a stage ends: behind the statements of all nodes, with one assignment
for each wired slot of the stage. -/
structure EndsWith (s : Store) (root : NodeId) (w : Walk) (shader : Shader) (stage : Stage)
    (writes : List (String × String)) : Prop where
  slots : List.Forall₂ (w.WritesSlot s root stage)
    ((s.wiredSlots root).filter fun slot => slot.2.stage = stage) writes
  main : ∃ nodes, ((Plan.ofDiagram w.diagram).stageOrder stage).mapM
      ((Plan.ofDiagram w.diagram).emitNode stage) = .ok nodes ∧
    (shader.stage stage).statements =
      nodes.flatten ++ writes.map (fun write => .assign write.1 write.2) ∧
    shader.source stage = (shader.stage stage).opening ++ StageSource.written nodes.flatten ++
      String.join (writes.map fun write => "    " ++ write.1 ++ " = " ++ write.2 ++ ";\n") ++
      "\x7d\n"

theorem exists_endsWith {shader : Shader} (hc : s.compile root = .ok shader) {w : Walk}
    (hdisc : Walk.discover s root = .ok w) (stage : Stage) :
    ∃ writes, EndsWith s root w shader stage writes := by
  obtain ⟨hmaster, w', hdisc', hplan⟩ := (s.compile_eq_ok_iff root shader).1 hc
  obtain rfl : w = w' := Except.ok.inj (hdisc.symm.trans hdisc')
  have hw := Walk.discover_ok hdisc
  obtain ⟨nodes, slots, hn, hs, hsource⟩ :=
    (Plan.emit_eq_ok_iff stage _).1 (Plan.emit_of_compile hplan stage)
  obtain ⟨writes, hwrites, hslots⟩ := Plan.slots_of_mapM hs
  have hst : (shader.stage stage).statements =
      nodes.flatten ++ writes.map fun write => .assign write.1 write.2 := by
    rw [hsource, hwrites]
  refine ⟨writes, ?_, nodes, hn, hst, ?_⟩
  · change List.Forall₂ _ ((Plan.ofDiagram w.diagram).wiredSlots.filter _) writes at hslots
    rw [hw.wiredSlots_eq] at hslots
    have hmem : ∀ slot ∈ (s.wiredSlots root).filter fun slot => slot.2.stage = stage,
        slot ∈ (s.design root).slots.entries ∧ slot.2.stage = stage := by
      intro slot hm
      obtain ⟨hm, hstage⟩ := List.mem_filter.1 hm
      exact ⟨List.mem_of_mem_filter hm, by simpa using hstage⟩
    refine ((List.forall₂_and_left _ _).2 ⟨hmem, hslots⟩).imp ?_
    rintro ⟨name, slot⟩ write ⟨⟨hslot, rfl⟩, value, hvalue, rfl⟩
    obtain ⟨port, source, hport, hs, hresolved⟩ :=
      hw.resolved_of_slotHas hmaster (Plan.portsFit_of_compile hplan) hslot hvalue
    exact ⟨port, source, value, hport, hs, hresolved, rfl, slot.fills_expression value⟩
  · rw [shader.source_eq, StageSource.render_eq, hst, StageSource.written_append,
      StageSource.written_assigns]
    simp only [String.append_assoc]

theorem EndsWith.targets_eq {w : Walk} {shader : Shader} {stage : Stage}
    {writes : List (String × String)} (h : EndsWith s root w shader stage writes) :
    writes.map Prod.fst = ((s.wiredSlots root).filter fun slot => slot.2.stage = stage).map
      fun slot => slot.2.target := by
  rw [← List.forall₂_eq_eq_eq, List.forall₂_map_left_iff, List.forall₂_map_right_iff]
  refine h.slots.flip.imp ?_
  rintro write slot ⟨_, _, _, -, -, -, htarget, -⟩
  exact htarget

/-- Of a master whose ports are checked, compilation finds a target that is written twice exactly
if two wired slots have one target, and names the first slot whose target is taken with the only
one before it that took it. What compiles ends its main functions with the writes of the wired
slots, and no two of them in both stages have one target. -/
theorem slot_writes (s : Store) (root : NodeId) :
    ((s.design root).isMaster = true → s.Acyclic root →
      (∀ w, Walk.discover s root = .ok w → (Plan.ofDiagram w.diagram).checkPorts = .ok ()) →
      ((∃ target first second,
          s.compile root = .error (.duplicateSlotWrite target first second)) ↔
        ∃ name slot name' slot', s.Wired root name slot ∧ s.Wired root name' slot' ∧
          slot.target = slot'.target ∧ name ≠ name') ∧
      ∀ target first second, s.compile root = .error (.duplicateSlotWrite target first second) ↔
        Plan.TakenTwice (s.wiredSlots root) target first second) ∧
    ∀ shader, s.compile root = .ok shader → ∃ (w : Walk) (writes : Stage → List (String × String)),
      Walk.discover s root = .ok w ∧
      (∀ stage, EndsWith s root w shader stage (writes stage)) ∧
      ((writes .vertex ++ writes .fragment).map Prod.fst).Nodup := by
  constructor
  · intro hmaster hacyclic hports
    obtain ⟨w, hd⟩ := Walk.discover_isOk_iff.2 hacyclic
    have hw := Walk.discover_ok hd
    have hiff := compile_eq_duplicate_iff hmaster hd (hports w hd)
    refine ⟨?_, hiff⟩
    simp only [hiff, ← hw.wiredSlots_eq, Plan.exists_takenTwice_iff, hw.slotsApart_iff,
      not_forall, exists_prop]
  · intro shader hc
    obtain ⟨-, w, hdisc, hplan⟩ := (s.compile_eq_ok_iff root shader).1 hc
    have hw := Walk.discover_ok hdisc
    choose writes hwrites using exists_endsWith hc hdisc
    refine ⟨w, writes, hdisc, hwrites, ?_⟩
    have hapart : ((s.wiredSlots root).map fun slot => slot.2.target).Nodup := by
      obtain ⟨-, hslots, -⟩ := (Plan.compile_eq_ok_iff _ _).1 hplan
      rw [← hw.wiredSlots_eq]
      exact (Plan.checkSlots_eq_ok_iff _).1 hslots
    -- the slots of one stage and those of the other are all wired slots
    have hperm := List.filter_append_perm (fun slot : String × Slot => slot.2.stage = .vertex)
      (s.wiredSlots root)
    have hrest : ∀ slot : String × Slot,
        (!decide (slot.2.stage = .vertex)) = decide (slot.2.stage = .fragment) := by
      rintro ⟨_, _, stage, _⟩
      cases stage <;> rfl
    simp only [hrest] at hperm
    rw [List.map_append, (hwrites .vertex).targets_eq, (hwrites .fragment).targets_eq,
      ← List.map_append]
    exact (hperm.map _).nodup_iff.2 hapart

end Store

section Contested

/-- A material with two slots for one target, the second of which may stay without a source. -/
def contested (glow : Option (Source NodeId)) : Store :=
  let tone := Node.named "Tone" |>.output "value" .vector3 "vec3(0.5)"
  let material := Node.named "Surface"
    |>.slot "color" ((Port.ofKind .vector3).wired (.edge ⟨0⟩ "value"))
      ⟨"gl_FragColor", .fragment, Library.solidValue⟩
    |>.slot "glow" ⟨.vector4, glow, false, true⟩ (.plain .fragment "gl_FragColor")
  ⟨#[⟨tone, none⟩, ⟨material, none⟩]⟩

theorem slot_writes_contested :
    (contested (some (.raw "vec4(1.0)"))).compile ⟨1⟩ =
        .error (.duplicateSlotWrite "gl_FragColor" "color" "glow") ∧
      ∃ shader w write, (contested none).compile ⟨1⟩ = .ok shader ∧
        Store.EndsWith (contested none) ⟨1⟩ w shader .fragment [write] ∧
        write = ("gl_FragColor", "vec4(Tone_1_out_value, 1.0)") := by
  constructor
  · have hchecked : (Walk.discover (contested (some (.raw "vec4(1.0)"))) ⟨1⟩).toOption.map
        (fun w => (Plan.ofDiagram w.diagram).checkPorts.toBool) = some true := by decide +kernel
    obtain ⟨w, hd, hchecked⟩ := exists_of_toOption hchecked
    obtain ⟨_, hports⟩ := exists_of_toBool hchecked
    obtain ⟨hiff, hnames⟩ := (Store.slot_writes (contested (some (.raw "vec4(1.0)"))) ⟨1⟩).1 rfl
      (Walk.discover_isOk_iff.1 ⟨w, hd⟩) fun w' hd' => by
        obtain rfl : w = w' := Except.ok.inj (hd.symm.trans hd')
        exact hports
    refine (hnames _ _ _).2 ⟨[_], _, [], _, rfl, rfl, by simp, List.mem_singleton_self _, rfl, ?_⟩
    exact fun other hm _ => List.mem_singleton.1 hm
  · have hlast : ((contested none).compile ⟨1⟩).toOption.map
        (fun shader => shader.fragment.statements.getLast?) =
        some (some (.assign "gl_FragColor" "vec4(Tone_1_out_value, 1.0)")) := by decide +kernel
    obtain ⟨shader, hc, hlast⟩ := exists_of_toOption hlast
    obtain ⟨w, writes, -, hends, -⟩ := (Store.slot_writes (contested none) ⟨1⟩).2 shader hc
    have hslots := (hends .fragment).slots
    obtain ⟨nodes, -, hst, -⟩ := (hends .fragment).main
    have hlength : (writes .fragment).length = 1 := hslots.length_eq.symm
    obtain ⟨⟨target, expr⟩, hwrite⟩ := List.length_eq_one_iff.1 hlength
    rw [hwrite] at hst
    refine ⟨shader, w, _, hc, hwrite ▸ hends .fragment, ?_⟩
    change shader.fragment.statements = _ at hst
    rw [hst, List.map_singleton, List.getLast?_concat] at hlast
    cases hlast
    rfl

end Contested

end ShaderGraph
