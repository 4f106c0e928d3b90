import ShaderGraph.Proofs.FloatConstants
import ShaderGraph.Proofs.SlotWrites
import ShaderGraph.Proofs.UniformKeys

/-!
# Literal sources in a compiled shader

A graph compiles only if every literal below its master is finite and fits its port
(`Port.literal_of_fits`). So each literal that a stage reads, as the input of a node or through a
slot, stands in the source of the stage as a constant of its port's type (`literals_typed`).
-/

namespace ShaderGraph

/-- A literal that fits its port is finite and written as a constant of the port's type. -/
theorem Port.literal_of_fits {ρ : Type} {design : ρ → Design} {port : Port ρ} {v : Value}
    (h : port.Fits design) (hs : port.source = some (.literal v)) :
    port.Literal v port.kind.type (Glsl.widen v.toGlsl v.kind port.kind) := by
  rcases h with ⟨-, h⟩ | ⟨h, -⟩
  · simp only [validate, hs] at h
    split_ifs at h with hfinite
    exact literal_widen hfinite ((port.accept_eq_ok_iff _).1 h)
  · rw [hs] at h
    cases h

namespace Plan

variable {p : Plan} {stage : Stage}

/-- The block of a node declares the variable of an input with a literal. -/
theorem declare_literal_of_emitNode {i : Nat} {block : List Statement}
    (h : p.emitNode stage i = .ok block) {name : String} {port : Port Nat}
    (hm : (name, port) ∈ (p.diagram.entry i).node.inputs.entries) {v : Value}
    (hs : port.source = some (.literal v)) :
    .declare port.kind.type ((p.diagram.entry i).inputName name)
      (Glsl.widen v.toGlsl v.kind port.kind) ∈ block := by
  obtain ⟨wires, outputs, scope, hw, -, -, rfl⟩ := (emitNode_eq_ok_iff stage i block).1 h
  obtain ⟨wire, hwire, hresult⟩ := mem_of_mapM hw hm
  simp only [Plan.wire, hs] at hresult
  cases hresult
  simp only [List.mem_cons, List.mem_append, List.mem_flatMap]
  exact .inr (.inl (.inl (.inl ⟨_, hwire, List.mem_singleton_self _⟩)))

/-- A slot whose input has a literal assigns it. -/
theorem assign_literal_of_emit {source : StageSource} (h : p.emit stage = .ok source)
    {name : String} {slot : Slot} (hslot : (name, slot) ∈ p.diagram.root.node.design.slots.entries)
    (hstage : slot.stage = stage) {port : Port Nat}
    (hm : (name, port) ∈ p.diagram.root.node.inputs.entries) {v : Value}
    (hs : port.source = some (.literal v)) :
    .assign slot.target (slot.expression (Glsl.widen v.toGlsl v.kind port.kind)) ∈
      source.statements := by
  obtain ⟨nodes, slots, -, hslots, rfl⟩ := (emit_eq_ok_iff stage source).1 h
  obtain ⟨written, hwritten, hemit⟩ := mem_of_mapM hslots hslot
  have hget := (Table.get?_eq_some_iff _ _ _).2 hm
  simp only [emitSlot, hstage, ne_eq, not_true_eq_false, if_false, hget, slotValue, hs] at hemit
  cases hemit
  exact List.mem_append_right _ (List.mem_flatten.2 ⟨_, hwritten, List.mem_singleton_self _⟩)

end Plan

namespace Store

/-- Every literal that a stage reads stands in it as a constant of its port's type: declared as the
variable of the input, or assigned by a slot in the places that the slot's template has for it. -/
structure WritesLiterals (s : Store) (root : NodeId) (w : Walk) (shader : Shader)
    (stage : Stage) : Prop where
  inputs : ∀ n ∈ w.emitted s stage, ∀ name port v, (name, port) ∈ (s.get n).inputs.entries →
    port.source = some (.literal v) → ∃ text, port.Literal v port.kind.type text ∧
      shader.Declares stage port.kind.type ((Walk.entryIn s w.ids n).inputName name) text
  slots : ∀ name slot port v, (name, slot) ∈ (s.design root).slots.entries →
    slot.stage = stage → (name, port) ∈ (s.get root).inputs.entries →
    port.source = some (.literal v) → ∃ text expr, port.Literal v port.kind.type text ∧
      Slot.Fills slot.template.toList text.toList expr.toList ∧
      shader.Assigns stage slot.target expr

/-- Every finite number has a float constant that is read as it, and what compiles has its literals
written with these, in the types of their ports. -/
theorem literals_typed (s : Store) (root : NodeId) :
    (∀ x : Single, x.isFinite = true → Glsl.FloatConstant x (Glsl.floatLiteral x)) ∧
      ∀ shader, s.compile root = .ok shader → ∃ w, Walk.discover s root = .ok w ∧
        ∀ stage, s.WritesLiterals root w shader stage := by
  refine ⟨fun x hx => Glsl.floatConstant_floatLiteral hx, fun shader hc => ?_⟩
  obtain ⟨-, w, hdisc, hplan⟩ := (s.compile_eq_ok_iff root shader).1 hc
  have hw := Walk.discover_ok hdisc
  have hfits := hw.portsFit_iff.1 (Plan.portsFit_of_compile hplan)
  refine ⟨w, hdisc, fun stage => ⟨fun n hn name port v hm hs => ?_,
    fun name slot port v hslot hstage hm hs => ?_⟩⟩
  · have hids := hw.mem_ids_of_emitted hn
    have hentry : (Plan.ofDiagram w.diagram).diagram.entry (w.ids.idxOf n) =
      Walk.entryIn s w.ids n := hw.entry_idxOf hids
    have hm' : (name, port.map w.ids.idxOf) ∈
        ((Plan.ofDiagram w.diagram).diagram.entry (w.ids.idxOf n)).node.inputs.entries := by
      rw [hentry]
      exact (Node.mem_inputs_map _ _ _ _).2 ⟨port, hm, rfl⟩
    have hs' : (port.map w.ids.idxOf).source = some (.literal v) := by
      simp [Port.map, hs, Source.map]
    obtain ⟨earlier, block, later, hstatements, hblock⟩ :=
      hw.exists_block (Plan.emit_of_compile hplan stage) hn
    have hdeclare := Plan.declare_literal_of_emitNode hblock hm' hs'
    rw [hentry] at hdeclare
    refine ⟨_, Port.literal_of_fits (hfits n ((hw.mem_ids n).1 hids) name port hm) hs,
      Shader.declares_of_mem ?_⟩
    rw [hstatements]
    exact List.mem_append_left _ (List.mem_append_right _ hdeclare)
  · have hroot : (Plan.ofDiagram w.diagram).diagram.root.node =
      (s.get root).toNode.map w.ids.idxOf := hw.root_node
    have hm' : (name, port.map w.ids.idxOf) ∈
        (Plan.ofDiagram w.diagram).diagram.root.node.inputs.entries := by
      rw [hroot]
      exact (Node.mem_inputs_map _ _ _ _).2 ⟨port, hm, rfl⟩
    have hslot' : (name, slot) ∈
        (Plan.ofDiagram w.diagram).diagram.root.node.design.slots.entries := by
      rw [hroot]
      exact hslot
    have hs' : (port.map w.ids.idxOf).source = some (.literal v) := by
      simp [Port.map, hs, Source.map]
    exact ⟨_, _, Port.literal_of_fits (hfits root .refl name port hm) hs, slot.fills_expression _,
      Shader.assigns_of_mem
        (Plan.assign_literal_of_emit (Plan.emit_of_compile hplan stage) hslot' hstage hm' hs')⟩

end Store

section Specks

/-- A vector of the least positive number, minus zero, the greatest number and a tenth. -/
def extremeVector : Value :=
  .vector4 (.ofQuotient false 1 (Nat.pow 2 149)) (.ofQuotient true 0 1)
    (.ofQuotient false (Nat.pow 2 128 - Nat.pow 2 104) 1) (.ofQuotient false 1 10)

def extremePort : Port NodeId := (Port.ofKind .vector4).wired (.literal extremeVector)

def tonePort : Port NodeId := ⟨.color, some (.literal (.float (.ofQuotient true 1 2))), true, true⟩

/-- A node with a vector of extremes, and a number that is widened to a colour in a slot. -/
def specks : Store :=
  let speck := Node.named "Speck"
    |>.input "extremes" extremePort
    |>.output "value" .float "in_extremes.x"
  let surface := Node.named "Surface"
    |>.slot "alpha" ((Port.ofKind .float).wired (.edge ⟨0⟩ "value")) (.plain .fragment "alpha")
    |>.slot "tone" tonePort (.plain .fragment "tone")
  ⟨#[⟨speck, none⟩, ⟨surface, none⟩]⟩

theorem literals_typed_specks : ∃ shader text tone expr, specks.compile ⟨1⟩ = .ok shader ∧
    extremePort.Literal extremeVector "vec4" text ∧
    shader.Declares .fragment "vec4" "Speck_1_in_extremes" text ∧
    tonePort.Literal (.float (.ofQuotient true 1 2)) "vec3" tone ∧
    Slot.Fills Slot.placeholder.toList tone.toList expr.toList ∧
    shader.Assigns .fragment "tone" expr := by
  have hok : (specks.compile ⟨1⟩).toBool = true := by decide +kernel
  obtain ⟨shader, hc⟩ := exists_of_toBool hok
  obtain ⟨w, hdisc, htyped⟩ := (Store.literals_typed specks ⟨1⟩).2 shader hc
  have hfacts : (Walk.discover specks ⟨1⟩).toOption.map (fun w =>
      (w.emitted specks .fragment, (Walk.entryIn specks w.ids ⟨0⟩).inputName "extremes")) =
      some ([⟨0⟩], "Speck_1_in_extremes") := by decide +kernel
  rw [hdisc] at hfacts
  obtain ⟨hemitted, hname⟩ := Prod.mk.inj (Option.some.inj hfacts)
  have hspeck : ⟨0⟩ ∈ w.emitted specks .fragment := hemitted ▸ List.mem_singleton_self _
  have hslot : ("tone", Slot.plain .fragment "tone") ∈ (specks.design ⟨1⟩).slots.entries :=
    (Table.get?_eq_some_iff _ _ _).1 rfl
  have htone : ("tone", tonePort) ∈ (specks.get ⟨1⟩).inputs.entries :=
    (Table.get?_eq_some_iff _ _ _).1 rfl
  obtain ⟨text, hliteral, hdeclares⟩ :=
    (htyped .fragment).inputs ⟨0⟩ hspeck "extremes" extremePort extremeVector List.mem_cons_self rfl
  obtain ⟨tone, expr, hwidened, hfills, hassigns⟩ :=
    (htyped .fragment).slots "tone" _ tonePort _ hslot rfl htone rfl
  rw [hname] at hdeclares
  exact ⟨shader, text, tone, expr, hc, hliteral, hdeclares, hwidened, hfills, hassigns⟩

end Specks

end ShaderGraph
