import ShaderGraph.Proofs.Rewiring

/-!
# Sound graphs

A graph with sound ports may lack a source or have a cycle, but it never fails to compile for what a
port reads (`compile_onlyFails`). As calls keep ports sound, this goes for every graph of which each
node had sound ports at some time (`ports_stay_sound`).
-/

namespace ShaderGraph

/-- The error is that a source does not fit its port. -/
def CompileError.IsFault (e : CompileError) : Prop :=
  ∃ node port stage fault, e = .fault node port stage fault

theorem CompileError.IsUnresolved.not_isFault {e : CompileError} (h : e.IsUnresolved) :
    ¬ e.IsFault := by
  obtain ⟨_, _, _, rfl⟩ := h
  rintro ⟨_, _, _, _, he⟩
  cases he

namespace Plan

variable {p : Plan}

theorem checkPort_onlyFails {port : Port Nat} (h : port.Sound p.diagram.design) (ident : String)
    (stage : Option Stage) (name : String) :
    OnlyFails CompileError.IsUnresolved (p.checkPort ident stage name port) := by
  unfold checkPort
  split_ifs
  · exact .ok _
  · exact .error ⟨_, _, _, rfl⟩
  · rw [(port.sound_iff _).1 h]
    exact .ok _

theorem takeTarget_onlyFails (writers : List (String × String)) (slot : String × Slot) :
    OnlyFails (fun e => ¬ e.IsFault) (takeTarget writers slot) := by
  unfold takeTarget
  split
  · refine .error ?_
    rintro ⟨_, _, _, _, he⟩
    cases he
  · exact .ok _

theorem checkSlots_onlyFails (p : Plan) :
    OnlyFails (fun e => ¬ e.IsFault) p.checkSlots :=
  .bind (.foldlM [] fun writers slot _ => takeTarget_onlyFails writers slot) fun _ _ => .ok ()

/-- Once the ports are checked, nothing that is emitted fails for what a port reads. -/
theorem compile_onlyFails (hd : p.diagram.WellFormed)
    (h : ∀ i < p.diagram.entries.length, ∀ name port,
      (name, port) ∈ (p.diagram.entry i).node.inputs.entries → port.Sound p.diagram.design) :
    OnlyFails (fun e => ¬ e.IsFault) p.compile := by
  have hports : OnlyFails CompileError.IsUnresolved p.checkPorts :=
    .forM fun i hi => .forM fun input hm =>
      checkPort_onlyFails (h i (List.mem_range.1 hi) input.1 input.2 hm) _ _ _
  refine .bind (hports.imp fun _ => CompileError.IsUnresolved.not_isFault) fun _ hok => ?_
  have hfit := (checkPorts_eq_ok_iff p).1 hok
  have hemit := fun stage =>
    (emit_onlyFails hfit hd stage).imp fun _ => CompileError.IsUnresolved.not_isFault
  exact .bind p.checkSlots_onlyFails fun _ _ => .bind (hemit _) fun _ _ =>
    .bind (hemit _) fun _ _ => .ok _

end Plan

namespace Walk.Explores

variable {s : Store} {root : NodeId} {w : Walk} (hw : Explores s root w)
include hw

theorem sound_entries (h : ∀ n, s.Reaches root n → ∀ name port,
      (name, port) ∈ (s.get n).inputs.entries → port.Sound s.design) :
    ∀ i < w.diagram.entries.length, ∀ name port,
      (name, port) ∈ (w.diagram.entry i).node.inputs.entries → port.Sound w.diagram.design := by
  intro i hi name port hm
  obtain ⟨n, hn, rfl⟩ := hw.exists_idxOf hi
  rw [hw.node_idxOf hn, Node.mem_inputs_map] at hm
  obtain ⟨port', hm, rfl⟩ := hm
  have hsound := h n ((hw.mem_ids n).1 hn) name port' hm
  rw [Port.sound_iff] at hsound ⊢
  rw [Port.validate_map, ← hsound]
  refine port'.validate_congr fun producer output he => hw.design_idxOf (hw.producer_mem hn ?_)
  exact (Node.mem_producers _ _).2 ⟨name, output, port', hm, he⟩

end Walk.Explores

theorem Store.compile_onlyFails {s : Store} {root : NodeId}
    (h : ∀ n, s.Reaches root n → ∀ name port, (name, port) ∈ (s.get n).inputs.entries →
      port.Sound s.design) :
    OnlyFails (fun e => ¬ e.IsFault) (s.compile root) := by
  by_cases hmaster : (s.design root).isMaster = true
  · have hcompile : s.compile root = (Walk.discover s root).mapError .graphCycle >>=
        fun w => (Plan.ofDiagram w.diagram).compile := by
      simp only [compile, hmaster]
      rfl
    rw [hcompile]
    rcases hdisc : Walk.discover s root with path | w
    · refine .error ?_
      rintro ⟨_, _, _, _, he⟩
      cases he
    · have hw := Walk.discover_ok hdisc
      exact Plan.compile_onlyFails (p := .ofDiagram w.diagram) hw.wellFormed (hw.sound_entries h)
  · have hcompile : s.compile root = .error (.rootNotMaster (s.design root).name) := by
      simp only [compile, hmaster]
      rfl
    rw [hcompile]
    refine .error ?_
    rintro ⟨_, _, _, _, he⟩
    cases he

/-- Whatever calls are made, instances keep what they are, and sound ports stay sound. So a graph
whose nodes had sound ports at some time after they were built never fails to compile for a source
that does not fit. -/
theorem Workspace.ports_stay_sound {w w' : Workspace} (h : w.Evolves w') :
    w.store.Keeps w'.store ∧ ∀ root,
      (∀ n, w'.store.Reaches root n → ∃ v : Workspace, v.Evolves w' ∧ v.store.Holds n ∧
        ∀ name port, (name, port) ∈ (v.store.get n).inputs.entries →
          port.Sound v.store.design) →
      ∀ node port stage fault, w'.store.compile root ≠ .error (.fault node port stage fault) := by
  refine ⟨h.keeps, fun root hbuilt node port stage fault he => ?_⟩
  refine Store.compile_onlyFails (fun n hn name port hm => ?_) _ he ⟨_, _, _, _, rfl⟩
  obtain ⟨v, hv, hheld, hsound⟩ := hbuilt n hn
  -- the port has its name since the node was built, and was sound then
  have hname : name ∈ (v.store.get n).inputs.keys := by
    rw [← hv.keeps.keys n hheld]
    exact Table.mem_keys_of_mem hm
  obtain ⟨⟨_, p⟩, hp, rfl⟩ := List.mem_map.1 hname
  obtain ⟨p', hp', -, -, -, hkept⟩ := hv.keeps.port n _ p ((Table.get?_eq_some_iff _ _ _).2 hp)
  rw [(Table.get?_eq_some_iff _ _ _).2 hm] at hp'
  cases hp'
  exact hkept (hsound _ _ hp)

section Painted

/-- A colour and a material. -/
def palette : Workspace :=
  (Library.registry.create "shader_material_master" []).after
    ((Library.registry.create "color" []).after default)

/-- The material wired to the colour, after a wiring that fails. -/
def painted : Workspace :=
  (Build.setInput ⟨1⟩ "color" (.edge ⟨0⟩ "value")).after
    ((Build.setInput ⟨1⟩ "position" (.literal (.float .zero))).after palette)

theorem evolves_painted : palette.Evolves painted :=
  .trans (.setInput _ _ _ _) (.setInput _ _ _ _)

theorem store_painted : painted.store = palette.store.set ⟨1⟩ { palette.store.get ⟨1⟩ with
    inputs := (palette.store.get ⟨1⟩).inputs.insert "color"
      ⟨.color, some (.edge ⟨0⟩ "value"), false, true⟩ } := by
  have howner : palette.store.owner ⟨1⟩ = ⟨1⟩ := by
    rw [Store.owner]
    rfl
  have hfails : ((Build.setInput ⟨1⟩ "position" (.literal (.float .zero))).after palette).store =
      palette.store := by
    rw [Build.after_setInput, Store.setInput, howner]
    rfl
  rw [painted, Build.after_setInput, hfails, Store.setInput, howner]
  rfl

theorem reaches_painted {n : NodeId} (h : painted.store.Reaches ⟨1⟩ n) : n ∈ [⟨1⟩, ⟨0⟩] := by
  have hreads : ∀ n ∈ [(⟨1⟩ : NodeId), ⟨0⟩], ∀ m ∈ (painted.store.get n).producers,
      m ∈ [(⟨1⟩ : NodeId), ⟨0⟩] := by
    rw [store_painted]
    decide +kernel
  induction h with
  | refl => exact List.mem_cons_self
  | tail _ hr ih => exact hreads _ ih _ hr

theorem ports_stay_sound_painted : Workspace.Evolves default painted ∧
    (∀ n, painted.store.Reaches ⟨1⟩ n → palette.store.Holds n ∧
      ∀ name port, (name, port) ∈ (palette.store.get n).inputs.entries →
        port.Sound palette.store.design) ∧
    ∀ node port stage fault, painted.store.compile ⟨1⟩ ≠ .error (.fault node port stage fault) := by
  have hstart : Workspace.Evolves default painted :=
    .trans (.trans (Library.evolves_create _ _ _) (Library.evolves_create _ _ _)) evolves_painted
  have hsound : ∀ n, painted.store.Reaches ⟨1⟩ n → palette.store.Holds n ∧
      ∀ name port, (name, port) ∈ (palette.store.get n).inputs.entries →
        port.Sound palette.store.design := by
    intro n hn
    have hmem := reaches_painted hn
    have hsize : ∀ n ∈ [(⟨1⟩ : NodeId), ⟨0⟩], n.index < palette.store.size := by decide +kernel
    have hports : ∀ n ∈ [(⟨1⟩ : NodeId), ⟨0⟩], ∀ input ∈ (palette.store.get n).inputs.entries,
        input.2.source = none ∨ input.2.validate palette.store.design = .ok () := by
      decide +kernel
    exact ⟨hsize n hmem, fun name port hm => hports n hmem _ hm⟩
  exact ⟨hstart, hsound, (Workspace.ports_stay_sound hstart).2 ⟨1⟩ fun n hn =>
    ⟨palette, evolves_painted, hsound n hn⟩⟩

end Painted

end ShaderGraph
