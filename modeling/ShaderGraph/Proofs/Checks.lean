import ShaderGraph.Proofs.Participation
import ShaderGraph.Proofs.Traversal
import ShaderGraph.Shader.Compile

/-!
# What a shader is checked for

Before anything is emitted, every port must fit its source (`checkPorts_eq_ok_iff`) and no two
wired slots may write one target (`checkSlots_eq_ok_iff`). An edge that fits is read without an
error: its producer has an entry and the output that is read (`reference_eq_ok`).
-/

namespace ShaderGraph

namespace Port

variable {ρ σ : Type}

/-- A port has a source that fits, or it may stay without one and does. -/
def Fits (design : ρ → Design) (p : Port ρ) : Prop :=
  (p.source.isSome = true ∧ p.validate design = .ok ()) ∨ (p.source = none ∧ p.optional = true)

theorem validate_map (f : ρ → σ) (design : σ → Design) (p : Port ρ) :
    (p.map f).validate design = p.validate (design ∘ f) := by
  rcases p with ⟨_, _ | ⟨_ | _ | _⟩, _, _⟩ <;> rfl

theorem validate_congr {design design' : ρ → Design} (p : Port ρ)
    (h : ∀ producer output, p.edge? = some (producer, output) →
      design producer = design' producer) :
    p.validate design = p.validate design' := by
  rcases p with ⟨kind, _ | ⟨value | expr | ⟨producer, output⟩⟩, broadcast, optional⟩
  · rfl
  · rfl
  · rfl
  · simp only [validate, h producer output rfl]

theorem fits_map (f : ρ → σ) (design : σ → Design) (p : Port ρ) :
    (p.map f).Fits design ↔ p.Fits (design ∘ f) := by
  simp only [Fits, validate_map]
  simp [map]

theorem fits_congr {design design' : ρ → Design} (p : Port ρ)
    (h : ∀ producer output, p.edge? = some (producer, output) →
      design producer = design' producer) : p.Fits design ↔ p.Fits design' := by
  rw [Fits, Fits, p.validate_congr h]

theorem edge?_eq_some_iff (p : Port ρ) (producer : ρ) (output : String) :
    p.edge? = some (producer, output) ↔ p.source = some (.edge producer output) := by
  rcases p with ⟨_, _ | ⟨_ | _ | _⟩, _, _⟩ <;> simp [edge?, Source.edge?]

theorem accept_eq_ok_iff (p : Port ρ) (found : Kind) :
    p.accept found = .ok () ↔ p.kind.accepts found p.broadcast = true := by
  simp only [accept]
  split_ifs with h <;> simp [h]

/-- An edge that fits reads an output of a kind that the port accepts. -/
theorem Fits.edge {design : ρ → Design} {p : Port ρ} (h : p.Fits design) {producer : ρ}
    {output : String} (he : p.edge? = some (producer, output)) :
    ∃ spec, (design producer).outputs.get? output = some spec ∧
      p.kind.accepts spec.kind p.broadcast = true := by
  have hs := (p.edge?_eq_some_iff _ _).1 he
  rcases h with ⟨-, h⟩ | ⟨h, -⟩
  · simp only [validate, hs, bind_eq_ok_iff, accept_eq_ok_iff, Design.outputKind] at h
    obtain ⟨kind, hk, ha⟩ := h
    split_ifs at hk
    split at hk
    · rename_i spec hspec
      cases hk
      exact ⟨spec, hspec, ha⟩
    · cases hk
  · rw [h] at hs
    cases hs

end Port

theorem Design.outputKind_eq_ok (d : Design) {output : String} {spec : Output}
    (h : d.outputs.get? output = some spec) : d.outputKind output = .ok spec.kind := by
  have hne : d.outputs.isEmpty = false := by
    rw [Bool.eq_false_iff, ne_eq, Table.isEmpty_iff]
    intro hnil
    have := (d.outputs.get?_eq_some_iff _ _).1 h
    rw [hnil] at this
    cases this
  simp [outputKind, hne, h]

namespace Plan

variable (p : Plan)

/-- All ports of the nodes fit their sources. -/
def PortsFit : Prop :=
  ∀ i < p.diagram.entries.length, ∀ name port,
    (name, port) ∈ (p.diagram.entry i).node.inputs.entries → port.Fits p.diagram.design

theorem checkPort_eq_ok_iff (ident : String) (stage : Option Stage) (name : String)
    (port : Port Nat) :
    p.checkPort ident stage name port = .ok () ↔ port.Fits p.diagram.design := by
  simp only [checkPort, Port.Fits]
  rcases hs : port.source with _ | source
  · by_cases ho : port.optional = true <;> simp [ho]
  · simp [mapError_eq_ok_iff]

theorem checkPorts_eq_ok_iff : p.checkPorts = .ok () ↔ p.PortsFit := by
  simp only [checkPorts, forM_eq_ok_iff, List.mem_range, Prod.forall, checkPort_eq_ok_iff,
    PortsFit]

/-- No two wired slots write the same target. -/
def SlotsApart : Prop := (p.wiredSlots.map fun slot => slot.2.target).Nodup

/-- Takes the target of a slot, if no slot has taken it before. -/
def takeTarget (writers : List (String × String)) (slot : String × Slot) :
    Except CompileError (List (String × String)) :=
  match writers.find? (·.1 = slot.2.target) with
  | some writer => .error (.duplicateSlotWrite slot.2.target writer.2 slot.1)
  | none => .ok ((slot.2.target, slot.1) :: writers)

theorem takeTarget_eq_ok_iff (writers : List (String × String)) (slot : String × Slot)
    (r : List (String × String)) : takeTarget writers slot = .ok r ↔
      slot.2.target ∉ writers.map Prod.fst ∧ r = (slot.2.target, slot.1) :: writers := by
  simp only [takeTarget]
  split
  · rename_i writer hf
    have hmem : slot.2.target ∈ writers.map Prod.fst :=
      List.mem_map.2 ⟨writer, List.mem_of_find?_eq_some hf, by simpa using List.find?_some hf⟩
    simp [hmem]
  · rename_i hf
    have hnone : slot.2.target ∉ writers.map Prod.fst := by
      simp only [List.find?_eq_none, decide_eq_true_eq] at hf
      simp only [List.mem_map, not_exists, not_and]
      exact hf
    simp only [Except.ok.injEq, hnone, not_false_eq_true, true_and, eq_comm]

theorem foldlM_takeTarget_isOk_iff : ∀ (slots : List (String × Slot))
    (writers : List (String × String)), (∃ r, slots.foldlM takeTarget writers = .ok r) ↔
      (slots.map fun slot => slot.2.target).Nodup ∧
        ∀ slot ∈ slots, slot.2.target ∉ writers.map Prod.fst
  | [], writers => by simp [pure, Except.pure]
  | slot :: slots, writers => by
    have ih := foldlM_takeTarget_isOk_iff slots ((slot.2.target, slot.1) :: writers)
    simp only [List.map_cons, List.mem_cons, not_or] at ih
    simp only [List.foldlM_cons, bind_eq_ok_iff, takeTarget_eq_ok_iff, List.map_cons,
      List.nodup_cons, List.forall_mem_cons]
    constructor
    · rintro ⟨r, _, ⟨hnew, rfl⟩, h⟩
      obtain ⟨hnd, hs⟩ := ih.1 ⟨r, h⟩
      refine ⟨⟨fun hm => ?_, hnd⟩, hnew, fun slot' hm => (hs slot' hm).2⟩
      obtain ⟨slot', hm, he⟩ := List.mem_map.1 hm
      exact (hs slot' hm).1 he
    · rintro ⟨⟨hm, hnd⟩, hnew, hs⟩
      obtain ⟨r, h⟩ := ih.2 ⟨hnd, fun slot' hm' =>
        ⟨fun he => hm (List.mem_map.2 ⟨slot', hm', he⟩), hs slot' hm'⟩⟩
      exact ⟨r, _, ⟨hnew, rfl⟩, h⟩

theorem checkSlots_eq_ok_iff : p.checkSlots = .ok () ↔ p.SlotsApart := by
  have h : p.checkSlots = p.wiredSlots.foldlM takeTarget [] >>= fun _ => .ok () := rfl
  rw [h, bind_eq_ok_iff, SlotsApart]
  simpa using foldlM_takeTarget_isOk_iff p.wiredSlots []

/-! ## Edges -/

variable {p}

/-- The variable that carries an output in a stage. -/
def variableOf (p : Plan) (stage : Stage) (producer : Nat) (output : String) : String :=
  if stage = .fragment ∧ output ∈ (p.share producer).varyings then
    (p.diagram.entry producer).varyingName output
  else (p.diagram.entry producer).outputName output

theorem reference_eq_ok (stage : Stage) (consumer : Entry) (name : String) (port : Port Nat)
    {producer : Nat} {output : String} {spec : Output}
    (hlt : producer < p.diagram.entries.length)
    (hspec : (p.diagram.design producer).outputs.get? output = some spec) :
    p.reference stage consumer name port producer output =
      .ok (Glsl.widen (p.variableOf stage producer output) spec.kind port.kind) := by
  have hentry : p.diagram.entries[producer]? = some (p.diagram.entry producer) := by
    simp [Diagram.entry, List.getD_eq_getElem?_getD, hlt]
  simp [reference, Design.outputKind_eq_ok _ hspec, hentry, Except.mapError, bind, Except.bind,
    pure, Except.pure, variableOf]

/-- No edge fails to be read once the ports fit. -/
theorem PortsFit.exists_reference (hp : p.PortsFit) (hd : p.diagram.WellFormed) {i : Nat}
    (hi : i < p.diagram.entries.length) {name : String} {port : Port Nat}
    (hm : (name, port) ∈ (p.diagram.entry i).node.inputs.entries) {producer : Nat}
    {output : String} (he : port.edge? = some (producer, output)) :
    ∃ spec, (p.diagram.design producer).outputs.get? output = some spec ∧
      producer < p.diagram.entries.length ∧
      port.kind.accepts spec.kind port.broadcast = true ∧
      ∀ stage consumer name, p.reference stage consumer name port producer output =
        .ok (Glsl.widen (p.variableOf stage producer output) spec.kind port.kind) := by
  obtain ⟨spec, hspec, ha⟩ := (hp i hi name port hm).edge he
  have hlt := hd.edge_lt hi ⟨port, hm, he⟩
  exact ⟨spec, hspec, hlt, ha, fun stage consumer name =>
    reference_eq_ok stage consumer name port hlt hspec⟩

end Plan

end ShaderGraph
