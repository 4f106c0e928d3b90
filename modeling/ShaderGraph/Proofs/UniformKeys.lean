import ShaderGraph.Proofs.Clocks
import ShaderGraph.Proofs.Ordering
import ShaderGraph.Proofs.SourceText

/-!
# Uniforms in code

A stage declares one uniform for every node with a clock that is emitted in it, and the code of the
node has the uniform's name in the place of the word for it (`Entry.rename_uniform`). The declared
names are keys of the values that updates set (`uniforms_agree`).
-/

namespace ShaderGraph

open Glsl

theorem Reference.ofWord_uniform (name : String) :
    Reference.ofWord ("u_" ++ name) = .uniform name := by
  simp [ofWord]

namespace Entry

/-- What the word for a uniform becomes in a node's code. -/
def uniformFor (e : Entry) (name : String) : Option String :=
  e.node.design.clock.bind fun c =>
    if c.uniform = name then some ("u_" ++ e.ident ++ "_" ++ name) else none

theorem uniformName_eq (e : Entry) (c : Clock) :
    e.uniformName c = "u_" ++ e.ident ++ "_" ++ c.uniform := rfl

theorem rename_uniform (e : Entry) (stage : Stage) (wires : List Wire) (name : String) :
    e.rename stage wires ("u_" ++ name) = .ok (e.uniformFor name) := by
  simp only [rename, Reference.ofWord_uniform, uniformFor]
  rcases e.node.design.clock with _ | c
  · rfl
  · simp only [Option.bind_some, uniformName_eq]
    split_ifs with h
    · rw [h]
    · rfl

/-- A text is code of a node with some of its words replaced, those for uniforms as the node has
it. -/
def Rewrites (e : Entry) (code text : String) : Prop :=
  ∃ answers : List (String × Option String), answers.map Prod.fst = words code ∧
    Replaced [] answers code.toList text.toList ∧
    ∀ name answer, ("u_" ++ name, answer) ∈ answers → answer = e.uniformFor name

theorem rewrites_of_replaceWords {e : Entry} {stage : Stage} {wires : List Wire}
    {code text : String} (h : replaceWords (e.rename stage wires) code = .ok text) :
    e.Rewrites code text := by
  obtain ⟨answers, hwords, hanswers, hreplaced⟩ := exists_answers h
  refine ⟨answers, hwords, hreplaced, fun name answer hm => ?_⟩
  exact Except.ok.inj ((hanswers _ hm).symm.trans (e.rename_uniform stage wires name))

end Entry

namespace Plan

variable {p : Plan} {stage : Stage} {i : Nat} {e : Entry} {block : List Statement}
  (he : p.diagram.entry i = e) (h : p.emitNode stage i = .ok block)
include he h

/-- The expressions of a node's outputs stand in its block with their words replaced. -/
theorem output_rewritten {name code : String} {output : Output}
    (ho : (name, output) ∈ e.node.design.outputs.entries) (hcode : output.expr = some code) :
    ∃ text, .declare output.kind.type (e.outputName name) text ∈ block ∧
      e.Rewrites code text := by
  subst he
  obtain ⟨wires, -, houtputs, -⟩ := replaced_of_emitNode h
  obtain ⟨text, htext, hdecl⟩ := houtputs name output code ho hcode
  exact ⟨text, hdecl, Entry.rewrites_of_replaceWords htext⟩

/-- The body of a node stands in its block with its words replaced. -/
theorem body_rewritten {code : String} (hcode : (e.node.design.code stage).body = some code) :
    ∃ text, .block text ∈ block ∧ e.Rewrites code text := by
  subst he
  obtain ⟨wires, -, -, hbody⟩ := replaced_of_emitNode h
  obtain ⟨text, htext, hblock⟩ := hbody code hcode
  exact ⟨text, hblock, Entry.rewrites_of_replaceWords htext⟩

end Plan

/-- The key of the uniform of an instance's clock. -/
def Walk.uniformKey (s : Store) (w : Walk) (x : NodeId × Clock) : String :=
  "u_" ++ (entryIn s w.ids x.1).ident ++ "_" ++ x.2.uniform

theorem Walk.clockName_eq (s : Store) (w : Walk) : w.clockName s = w.uniformKey s := rfl

/-- The instances that are emitted in a stage, producers first. -/
def Walk.emitted (s : Store) (w : Walk) (stage : Stage) : List NodeId :=
  w.topological.filter fun n => (w.share n).stages.contains stage && !(s.design n).isMaster

namespace Walk.Explores

variable {s : Store} {root : NodeId} {w : Walk} (hw : Explores s root w)
include hw

theorem mem_ids_of_emitted {stage : Stage} {n : NodeId} (hn : n ∈ w.emitted s stage) :
    n ∈ w.ids :=
  hw.topological_perm.mem_iff.1 (List.mem_filter.1 hn).1

theorem stageOrder_eq (stage : Stage) : (Plan.ofDiagram w.diagram).stageOrder stage =
    (w.emitted s stage).map w.ids.idxOf := by
  change w.diagram.order.filter _ = _
  rw [hw.order_eq, List.filter_map, emitted]
  congr 1
  refine List.filter_congr fun n hn => ?_
  have hdesign := hw.design_idxOf (hw.topological_perm.mem_iff.1 hn)
  change (_ && !(w.diagram.design (w.ids.idxOf n)).isMaster) = _
  rw [hdesign]
  rfl

theorem clocksOf_emitted_subset (stage : Stage) :
    clocksOf s.design (w.emitted s stage) ⊆ clocksOf s.design w.ids := by
  rintro ⟨n, c⟩ hm
  obtain ⟨hn, hc⟩ := mem_clocksOf.1 hm
  exact mem_clocksOf.2 ⟨hw.mem_ids_of_emitted hn, hc⟩

theorem uniform?_idxOf {n : NodeId} (hn : n ∈ w.ids) :
    (Plan.ofDiagram w.diagram).uniform? (w.ids.idxOf n) =
      (s.design n).clock.map fun c => w.clockName s (n, c) := by
  have hentry : (Plan.ofDiagram w.diagram).diagram.entry (w.ids.idxOf n) =
    entryIn s w.ids n := hw.entry_idxOf hn
  simp only [Plan.uniform?, hentry]
  rfl

/-- A stage declares the uniforms of the clocks that are emitted in it. -/
theorem uniforms_emit {stage : Stage} {source : StageSource}
    (h : (Plan.ofDiagram w.diagram).emit stage = .ok source) :
    source.uniforms = (clocksOf s.design (w.emitted s stage)).map (w.clockName s) := by
  obtain ⟨_, _, -, -, rfl⟩ := (Plan.emit_eq_ok_iff stage source).1 h
  rw [hw.stageOrder_eq, List.filterMap_map, clocksOf, List.map_filterMap]
  refine List.filterMap_congr fun n hn => ?_
  rw [Function.comp_apply, hw.uniform?_idxOf (hw.mem_ids_of_emitted hn), Option.map_map]
  rfl

theorem nodup_emitted (stage : Stage) :
    ((clocksOf s.design (w.emitted s stage)).map (w.clockName s)).Nodup := by
  have hemitted : (w.emitted s stage).Nodup :=
    (hw.topological_perm.nodup_iff.2 hw.nodup).filter _
  refine (nodup_map_fst_clocksOf hemitted).of_map.map_on fun x hx y hy => ?_
  exact List.inj_on_of_nodup_map hw.nodup_clockNames (hw.clocksOf_emitted_subset stage hx)
    (hw.clocksOf_emitted_subset stage hy)

/-- The block of an instance that is emitted, between what is emitted before and after it. -/
theorem exists_block {stage : Stage} {source : StageSource}
    (h : (Plan.ofDiagram w.diagram).emit stage = .ok source) {n : NodeId}
    (hn : n ∈ w.emitted s stage) :
    ∃ earlier block later, source.statements = earlier ++ block ++ later ∧
      (Plan.ofDiagram w.diagram).emitNode stage (w.ids.idxOf n) = .ok block := by
  have hm : w.ids.idxOf n ∈ (Plan.ofDiagram w.diagram).stageOrder stage := by
    rw [hw.stageOrder_eq]
    exact List.mem_map_of_mem hn
  obtain ⟨before, after, horder⟩ := List.append_of_mem hm
  obtain ⟨blocks, block, later, -, hblock, hstatements⟩ := Plan.emit_split h horder
  exact ⟨_, block, later, hstatements, hblock⟩

end Walk.Explores

/-- Before any update, the keys of a shader's values are the names of the clocks' uniforms in the
order of discovery. The source of each stage starts with a line for each clock that is emitted in
it, producers first, and the code of each node that is emitted has only its own in the place of
words. -/
theorem Store.uniforms_agree {s : Store} {root : NodeId} {shader : Shader}
    (hc : s.compile root = .ok shader) :
    ∃ w, Walk.discover s root = .ok w ∧
      shader.uniforms.values.entries =
        (clocksOf s.design w.ids).map (fun x => (w.uniformKey s x, .float .zero)) ∧
      ((clocksOf s.design w.ids).map (w.uniformKey s)).Nodup ∧
      ∀ stage,
        StageSource.Declares (shader.source stage)
          ((clocksOf s.design (w.emitted s stage)).map (w.uniformKey s))
          (shader.stage stage).varyings (shader.stage stage).headers ∧
        ((clocksOf s.design (w.emitted s stage)).map (w.uniformKey s)).Nodup ∧
        (∀ x ∈ clocksOf s.design (w.emitted s stage), ∃ b ∈ shader.uniforms.bindings,
          shader.uniforms.values.keys[b.slot]? = some (w.uniformKey s x)) ∧
        ∀ n ∈ w.emitted s stage, ∃ earlier block later,
          (shader.stage stage).statements = earlier ++ block ++ later ∧
          (Plan.ofDiagram w.diagram).emitNode stage (w.ids.idxOf n) = .ok block ∧
          (∀ name output code, (name, output) ∈ (s.design n).outputs.entries →
            output.expr = some code → ∃ text,
              .declare output.kind.type ((Walk.entryIn s w.ids n).outputName name) text ∈ block ∧
                (Walk.entryIn s w.ids n).Rewrites code text) ∧
          ∀ code, ((s.design n).code stage).body = some code → ∃ text,
            .block text ∈ block ∧ (Walk.entryIn s w.ids n).Rewrites code text := by
  obtain ⟨-, w, hdisc, hplan⟩ := (s.compile_eq_ok_iff root shader).1 hc
  obtain ⟨-, -, -, -, huniforms⟩ := (Plan.compile_eq_ok_iff _ _).1 hplan
  have hw := Walk.discover_ok hdisc
  obtain ⟨keys, -, -, hshows⟩ := Plan.shows_uniforms hw.wellFormed
  rw [← huniforms] at hshows
  refine ⟨w, hdisc, ?_⟩
  rw [← Walk.clockName_eq]
  refine ⟨?_, hw.nodup_clockNames, fun stage => ?_⟩
  · rw [hshows.values, hw.clocks_eq, List.map_map]
    refine List.map_congr_left fun x hx => ?_
    rw [Function.comp_apply, hw.clockName_idxOf hx]
  have hemit := Plan.emit_of_compile hplan stage
  refine ⟨?_, hw.nodup_emitted stage, fun x hx => ?_, fun n hn => ?_⟩
  · rw [← hw.uniforms_emit hemit]
    exact shader.declares_source stage
  · -- the uniform of a clock is at the place at which the clock was bound
    have hx := hw.clocksOf_emitted_subset stage hx
    rw [← hw.clockName_idxOf hx]
    refine hshows.exists_binding ?_
    rw [hw.clocks_eq]
    exact List.mem_map_of_mem hx
  · obtain ⟨earlier, block, later, hstatements, hblock⟩ := hw.exists_block hemit hn
    have hentry := hw.entry_idxOf (hw.mem_ids_of_emitted hn)
    refine ⟨earlier, block, later, hstatements, hblock, fun name output code ho hcode => ?_,
      fun code hcode => ?_⟩
    · exact Plan.output_rewritten hentry hblock ho hcode
    · exact Plan.body_rewritten hentry hblock hcode

theorem uniforms_agree_pulse : ∃ shader headers, pulse.compile ⟨3⟩ = .ok shader ∧
    StageSource.Declares (shader.source .fragment) ["u_Time_3_time"]
      [⟨"vec3", "v_WorldPosition_2_value"⟩] headers ∧
    shader.uniforms.values.keys = ["u_Time_3_time"] := by
  have hvaryings : (pulse.compile ⟨3⟩).toOption.map (fun shader => shader.fragment.varyings) =
      some [⟨"vec3", "v_WorldPosition_2_value"⟩] := by decide +kernel
  obtain ⟨shader, hc, hvaryings⟩ := exists_of_toOption hvaryings
  obtain ⟨w, hdisc, hvalues, -, hstages⟩ := Store.uniforms_agree hc
  obtain ⟨hfragment, -⟩ := hstages .fragment
  have hw : (Walk.discover pulse ⟨3⟩).toOption.map (fun w =>
      ((clocksOf pulse.design (w.emitted pulse .fragment)).map (w.uniformKey pulse),
        (clocksOf pulse.design w.ids).map (w.uniformKey pulse))) =
      some (["u_Time_3_time"], ["u_Time_3_time"]) := by decide +kernel
  rw [hdisc] at hw
  obtain ⟨hemitted, hids⟩ := Prod.mk.inj (Option.some.inj hw)
  have hstage : (shader.stage .fragment).varyings = _ := hvaryings
  rw [hemitted, hstage] at hfragment
  refine ⟨shader, _, hc, hfragment, ?_⟩
  rw [Table.keys, hvalues, List.map_map]
  exact hids

end ShaderGraph
