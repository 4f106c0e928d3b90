import ShaderGraph.Proofs.Expansion
import ShaderGraph.Proofs.Meaning

/-!
# Compilation preserves meaning

A graph that compiles has one meaning, and running the statements of its shader gives the variable
of every output of an emitted node the value that the output stands for
(`compile_preserves_meaning`). Slots of the vertex stage are written behind the nodes, so one that
has a varying in its target takes the value from the nodes of the fragment stage that draw it
(`drawn_value_overwritten`).
-/

namespace ShaderGraph

open Glsl

variable {V : Type}

namespace Walk

/-- Values of the outputs of the instances of a walk that are what the graph says. -/
def Means (s : Store) (w : Walk) (E : Evaluator V) (ambient : Stage → String → V)
    (den : Stage → NodeId → String → V) : Prop :=
  E.Denotes (fun n => (s.get n).toNode) (fun n => (entryIn s w.ids n).uniformName) ambient den
    w.ids

/-- The instances of a walk consist of expressions. -/
def ExpressionOnly (s : Store) (root : NodeId) (w : Walk) : Prop :=
  Expressions w.ids (fun n => (s.get n).toNode) root w.diagram.Generated

theorem getD_idxOf {w : Walk} {n : NodeId} (hn : n ∈ w.ids) (root : NodeId) :
    w.ids.getD (w.ids.idxOf n) root = n := by
  have hlt := List.idxOf_lt_length_of_mem hn
  simp [List.getD_eq_getElem?_getD, hlt]

namespace Explores

variable {s : Store} {root : NodeId} {w : Walk} (hw : Explores s root w)
include hw

theorem expressionOnly (hx : ExpressionOnly s root w) : w.diagram.ExpressionOnly := by
  have hids : ∀ i ∈ w.diagram.order, ∃ n ∈ w.ids, w.ids.idxOf n = i :=
    fun i hi => hw.exists_idxOf (hw.wellFormed.mem_order.1 hi)
  refine ⟨fun i hi stage => ?_, fun i hi hne => ?_, fun i hi output spec hspec => ?_,
    fun i hi name port expr hm hs => ?_⟩ <;> obtain ⟨n, hn, rfl⟩ := hids i hi
  · rw [hw.node_idxOf hn]
    exact hx.bodies n hn stage
  · rw [hw.node_idxOf hn]
    refine hx.slots n hn ?_
    rintro rfl
    exact hne hw.idxOf_root
  · rw [hw.node_idxOf hn] at hspec
    exact hx.outputs n hn output spec hspec
  · rw [hw.node_idxOf hn, Node.mem_inputs_map] at hm
    obtain ⟨port', hm', rfl⟩ := hm
    refine hx.raws n hn name port' expr hm' ?_
    rcases hs' : port'.source with _ | ⟨v | e | ⟨p, o⟩⟩ <;>
      simp_all [Port.map, Source.map]

theorem expressionOnly_of_isPlain (hslots : ∀ n ∈ w.ids, n ≠ root → (s.design n).isMaster = false)
    (h : ∀ n ∈ w.ids, (s.get n).toNode.isPlain = true) : ExpressionOnly s root w := by
  have hgen : ∀ name, startsGenerated name.toList = false → ¬ w.diagram.Generated name := by
    rintro name hname ⟨i, hi, l, -, rfl⟩
    rw [startsGenerated_label (hw.wellFormed.ident_eq i hi) l] at hname
    cases hname
  simp only [Node.isPlain, Bool.and_eq_true, List.all_eq_true] at h
  refine ⟨fun n hn stage => ?_, hslots, fun n hn output spec hspec code hcode word hword => ?_,
    fun n hn name port expr hm hs word hword => ?_⟩
  · have := (h n hn).1.1 stage (by cases stage <;> decide)
    simpa using this
  · have hvalue : spec ∈ (s.get n).toNode.design.outputs.values :=
      List.mem_map.2 ⟨_, (Table.get?_eq_some_iff _ _ _).1 hspec, rfl⟩
    obtain ⟨hstarts, houtput⟩ := (h n hn).1.2 spec hvalue code (by simpa using hcode) word hword
    refine ⟨fun o ho => ?_, hgen word (by simpa using hstarts)⟩
    rw [ho] at houtput
    cases houtput
  · have := (h n hn).2 port (List.mem_map.2 ⟨_, hm, rfl⟩)
    rw [hs] at this
    simp only [List.all_eq_true] at this
    exact hgen word (by simpa using this word hword)

theorem lawful_expansion (h : ∀ n ∈ w.ids,
    (s.get n).toNode.names.all (·.toList.all isWordChar) = true) :
    Evaluator.expansion.Lawful w.diagram :=
  Evaluator.lawful_expansion (hw.isName_generated fun n hn name hname =>
    List.all_eq_true.1 (List.all_eq_true.1 (h n hn) name hname))

theorem outputValue_idxOf (E : Evaluator V) (ambient : Stage → String → V)
    (den : Stage → Nat → String → V) {n : NodeId} (hn : n ∈ w.ids) (stage : Stage)
    (spec : Output) :
    E.outputValue (fun i => (w.diagram.entry i).node) (fun i => (w.diagram.entry i).uniformName)
        ambient den stage (w.ids.idxOf n) spec =
      E.outputValue (fun n => (s.get n).toNode) (fun n => (entryIn s w.ids n).uniformName)
        ambient (fun stage m => den stage (w.ids.idxOf m)) stage n spec := by
  have hdesign : ∀ m ∈ (s.get n).toNode.producers,
      (w.diagram.entry (w.ids.idxOf m)).node.design = (s.get m).toNode.design :=
    fun m hm => hw.design_idxOf (hw.producer_mem hn hm)
  have huniform := congrArg Entry.uniformName (hw.entry_idxOf hn)
  exact Evaluator.outputValue_map w.ids.idxOf (hw.node_idxOf hn) huniform hdesign den stage spec

theorem means_diagram {E : Evaluator V} {ambient : Stage → String → V}
    {den : Stage → NodeId → String → V} (h : Means s w E ambient den) :
    w.diagram.Means E ambient fun stage i => den stage (w.ids.getD i root) := by
  intro i hi stage output spec hspec
  obtain ⟨n, hn, rfl⟩ := hw.exists_idxOf (hw.wellFormed.mem_order.1 hi)
  dsimp only at hspec ⊢
  rw [hw.node_idxOf hn] at hspec
  rw [hw.outputValue_idxOf E ambient _ hn, getD_idxOf hn, h n hn stage output spec hspec]
  refine Evaluator.outputValue_congr (fun m hm stage output spec _ => ?_) stage spec
  rw [getD_idxOf (hw.producer_mem hn hm)]

/-- An acyclic graph has one meaning. -/
theorem exists_means (E : Evaluator V) (ambient : Stage → String → V) :
    ∃ den, Means s w E ambient den ∧ ∀ den', Means s w E ambient den' →
      ∀ n ∈ w.ids, ∀ stage o spec, (s.design n).outputs.get? o = some spec →
        den' stage n o = den stage n o := by
  obtain ⟨finished, hperm, hord, -, -⟩ := hw.order
  have : Inhabited V := ⟨ambient .vertex ""⟩
  obtain ⟨den, hden⟩ := E.exists_denotes (fun n => (s.get n).toNode)
    (fun n => (entryIn s w.ids n).uniformName) ambient finished
    (hperm.nodup_iff.2 hw.nodup) hord
  refine ⟨den, fun n hn => hden n (hperm.mem_iff.2 hn), fun den' hden' n hn => ?_⟩
  refine Evaluator.Denotes.unique hord (fun m hm => ?_) hden n (hperm.mem_iff.2 hn)
  exact hden' m (hperm.mem_iff.1 hm)

theorem exists_edge {n : NodeId} (hn : n ∈ w.ids) {j : Nat} {name o : String}
    (he : (w.diagram.entry (w.ids.idxOf n)).node.Edge name j o) :
    ∃ m ∈ w.ids, w.ids.idxOf m = j ∧ (s.get n).Edge name m o := by
  obtain ⟨m, hm, rfl⟩ := hw.exists_idxOf (hw.wellFormed.edge_lt (hw.idxOf_lt hn) he)
  exact ⟨m, hm, rfl, (hw.edge_idxOf hn name o).1 he⟩

/-- What a node of the diagram draws, its instance draws. -/
theorem exists_draws {i j : Nat} {o : String} (h : w.diagram.Draws i j o) :
    ∀ n ∈ w.ids, w.ids.idxOf n = i →
      ∃ m ∈ w.ids, w.ids.idxOf m = j ∧ Node.Draws (fun n => (s.get n).toNode) n m o := by
  unfold Diagram.Draws at h
  induction h with
  | edge he hinter =>
    rintro n hn rfl
    obtain ⟨m, hm, rfl, he'⟩ := hw.exists_edge hn he
    have hinter' : (s.design m).interpolated = true := hw.design_idxOf hm ▸ hinter
    exact ⟨m, hm, rfl, .edge he' hinter'⟩
  | through he hinter _ ih =>
    rintro n hn rfl
    obtain ⟨m, hm, rfl, he'⟩ := hw.exists_edge hn he
    have hinter' : (s.design m).interpolated = false := hw.design_idxOf hm ▸ hinter
    obtain ⟨m', hm', hidx, hdraws⟩ := ih m hm rfl
    exact ⟨m', hm', hidx, .through he' hinter' hdraws⟩

end Explores

end Walk

/-- No wired slot of a stage has a name in its target. -/
def Store.Spares (s : Store) (root : NodeId) (stage : Stage) (name : String) : Prop :=
  ∀ port slot, s.Wired root port slot → slot.stage = stage → ¬ Mentions slot.target name

theorem Walk.Explores.notMem_slotTargets {s : Store} {root : NodeId} {w : Walk}
    (hw : Explores s root w) {stage : Stage} {name : String} (h : s.Spares root stage name) :
    name ∉ (Plan.ofDiagram w.diagram).slotTargets stage := by
  intro hm
  obtain ⟨⟨port, slot⟩, hslot, rfl⟩ := List.mem_map.1 hm
  obtain ⟨hwired, hst⟩ := List.mem_filter.1 hslot
  exact h port slot ((hw.mem_wiredSlots port slot).1 hwired) (by simpa using hst)
    (Mentions.refl _)

/-- A target that is a word and does not start like a generated name mentions none. -/
theorem Store.spares_label {s : Store} {root : NodeId}
    (h : ∀ slot ∈ (s.design root).slots.values, slot.target.toList.all isWordChar = true ∧
      startsGenerated slot.target.toList = false)
    (stage : Stage) (found : List NodeId) (n : NodeId) (l : Label) :
    s.Spares root stage ((Walk.entryIn s found n).label l) := by
  rintro port slot ⟨hslot, -⟩ - hmentions
  obtain ⟨hchars, hstart⟩ := h slot (List.mem_map.2 ⟨_, hslot, rfl⟩)
  have he := hmentions.eq_of_isWordChar (List.all_eq_true.1 hchars)
  have hgenerated := startsGenerated_label (e := Walk.entryIn s found n) rfl l
  rw [← he, hstart] at hgenerated
  cases hgenerated

/-- For a graph of expressions that compiles, its outputs stand for one value each in each stage,
and running the shader declares every variable of an output of an emitted node with that value. It
has the value at the end as well, if no slot has the variable in its target. The fragment stage
starts with the values that the vertex stage leaves in the varyings, so there a node has its value
if no slot of the vertex stage has a varying in its target that the node draws. -/
theorem Store.compile_preserves_meaning (E : Evaluator V) (ambient : Stage → String → V)
    {s : Store} {root : NodeId} {shader : Shader} {w : Walk} (hc : s.compile root = .ok shader)
    (hdisc : Walk.discover s root = .ok w) (hx : Walk.ExpressionOnly s root w)
    (hE : E.Lawful w.diagram) :
    ∃ den, Walk.Means s w E ambient den ∧
      (∀ den', Walk.Means s w E ambient den' → ∀ n ∈ w.ids, ∀ stage o spec,
        (s.design n).outputs.get? o = some spec → den' stage n o = den stage n o) ∧
      ∀ stage, ∀ n ∈ w.ids, (w.share n).stages.contains stage = true →
        (s.design n).isMaster = false →
        (stage = .fragment → ∀ m o, Node.Draws (fun n => (s.get n).toNode) n m o →
          s.Spares root .vertex ((Walk.entryIn s w.ids m).varyingName o)) →
        ∀ o spec, (s.design n).outputs.get? o = some spec →
          (∃ before init after, (shader.stage stage).statements = before ++
              .declare spec.kind.type ((Walk.entryIn s w.ids n).outputName o) init :: after ∧
            E.eval (E.run (E.initial ambient shader stage) before) init = den stage n o) ∧
          (s.Spares root stage ((Walk.entryIn s w.ids n).outputName o) →
            E.run (E.initial ambient shader stage) (shader.stage stage).statements
              ((Walk.entryIn s w.ids n).outputName o) = den stage n o) := by
  have hw := Walk.discover_ok hdisc
  have hd := hw.wellFormed
  obtain ⟨-, w', hdisc', hplan⟩ := (s.compile_eq_ok_iff root shader).1 hc
  obtain rfl : w' = w := Except.ok.inj (hdisc'.symm.trans hdisc)
  obtain ⟨den, hmeans, hunique⟩ := hw.exists_means E ambient
  refine ⟨den, hmeans, hunique, fun stage n hn hstage hmaster hslots o spec hspec => ?_⟩
  have hmem : w'.ids.idxOf n ∈ (Plan.ofDiagram w'.diagram).stageOrder stage := by
    refine Plan.mem_stageOrder.2 ⟨hd.mem_order.2 (hw.idxOf_lt hn), hstage, ?_⟩
    change (w'.diagram.design (w'.ids.idxOf n)).isMaster = false
    rw [hw.design_idxOf hn, hmaster]
  have hspec' : (w'.diagram.design (w'.ids.idxOf n)).outputs.get? o = some spec := by
    rw [hw.design_idxOf hn, hspec]
  have hdrawn : stage = .fragment → ∀ j o, w'.diagram.Draws (w'.ids.idxOf n) j o →
      (w'.diagram.entry j).varyingName o ∉ (Plan.ofDiagram w'.diagram).slotTargets .vertex := by
    intro hst j o hdraws
    obtain ⟨m, hm, rfl, hdraws'⟩ := hw.exists_draws hdraws n hn rfl
    rw [hw.entry_idxOf hm]
    exact hw.notMem_slotTargets (hslots hst m o hdraws')
  obtain ⟨hdecl, hrun⟩ := Plan.stage_values hd hplan hE (hw.expressionOnly hx)
    (hw.means_diagram hmeans) stage hmem hdrawn hspec'
  rw [hw.entry_idxOf hn, Walk.getD_idxOf hn] at hdecl hrun
  exact ⟨hdecl, fun h => hrun (hw.notMem_slotTargets h)⟩

theorem compile_preserves_meaning_pulse : ∃ shader w, pulse.compile ⟨3⟩ = .ok shader ∧
    Walk.discover pulse ⟨3⟩ = .ok w ∧ Walk.ExpressionOnly pulse ⟨3⟩ w ∧
    Evaluator.expansion.Lawful w.diagram ∧
    (∀ stage n l, pulse.Spares ⟨3⟩ stage ((Walk.entryIn pulse w.ids n).label l)) ∧
    ∀ ambient, ∃ den, Walk.Means pulse w Evaluator.expansion ambient den ∧
      ∀ stage, ∀ n ∈ w.ids, (w.share n).stages.contains stage = true →
        (pulse.design n).isMaster = false → ∀ o spec,
          (pulse.design n).outputs.get? o = some spec →
          Evaluator.expansion.run (Evaluator.expansion.initial ambient shader stage)
            (shader.stage stage).statements ((Walk.entryIn pulse w.ids n).outputName o) =
              den stage n o := by
  have hslots : ∀ n : NodeId, n ≠ ⟨3⟩ → (pulse.design n).isMaster = false := by
    rintro ⟨_ | _ | _ | _ | _⟩ hne
    · rfl
    · rfl
    · rfl
    · exact absurd rfl hne
    · rfl
  have hplain : ∀ n : NodeId, (pulse.get n).toNode.isPlain = true := by
    rintro ⟨_ | _ | _ | _ | _⟩
    · decide +kernel
    · decide +kernel
    · decide +kernel
    · decide +kernel
    · rfl
  have hspelled : ∀ n : NodeId, (pulse.get n).toNode.names.all (·.toList.all isWordChar) = true := by
    rintro ⟨_ | _ | _ | _ | _⟩ <;> rfl
  obtain ⟨shader, hc⟩ := pulse_compiles
  obtain ⟨w, hdisc⟩ : ∃ w, Walk.discover pulse ⟨3⟩ = .ok w := ⟨_, rfl⟩
  have hw := Walk.discover_ok hdisc
  have hx := hw.expressionOnly_of_isPlain (fun n _ => hslots n) fun n _ => hplain n
  have hE := hw.lawful_expansion fun n _ => hspelled n
  have hspares : ∀ stage n l, pulse.Spares ⟨3⟩ stage ((Walk.entryIn pulse w.ids n).label l) :=
    fun stage => Store.spares_label (by decide) stage w.ids
  refine ⟨shader, w, hc, hdisc, hx, hE, hspares, fun ambient => ?_⟩
  obtain ⟨den, hden, -, hvalues⟩ :=
    Store.compile_preserves_meaning Evaluator.expansion ambient hc hdisc hx hE
  refine ⟨den, hden, fun stage n hn hstage hmaster o spec hspec => ?_⟩
  have hdrawn : stage = .fragment → ∀ m o, Node.Draws (fun n => (pulse.get n).toNode) n m o →
      pulse.Spares ⟨3⟩ .vertex ((Walk.entryIn pulse w.ids m).varyingName o) :=
    fun _ m o _ => hspares .vertex m (.varying o)
  exact (hvalues stage n hn hstage hmaster hdrawn o spec hspec).2 (hspares stage n (.output o))

section Overwritten

open Library

/-- Half of the world position as a color, and a slot of the vertex stage that has the name of the
varying as its target. -/
def overwritten : Store :=
  let half := Node.named "Half"
    |>.input "a" ((Port.ofKind .vector3).wired (.edge ⟨0⟩ "value"))
    |>.output "value" .vector3 "in_a * 0.5"
  let material := Node.named "Surface"
    |>.slot "color" ((Port.ofKind .vector3).wired (.edge ⟨1⟩ "value"))
      ⟨"gl_FragColor", .fragment, solidValue⟩
    |>.slot "shift" ((Port.ofKind .vector3).wired (.raw "vec3(0.0)"))
      (.plain .vertex "v_WorldPosition_2_value")
  ⟨#[⟨worldPositionTemplate, none⟩, ⟨half, none⟩, ⟨material, none⟩]⟩

/-- Every name is itself outside of a graph. -/
def spelledOut (_ : Stage) (name : String) : List Char := name.toList

/-- Every output stands for one text. -/
def everywhere (text : String) (_ : Stage) (_ : NodeId) (_ : String) : List Char := text.toList

theorem means_overwritten {w : Walk} (hdisc : Walk.discover overwritten ⟨2⟩ = .ok w)
    {den : Stage → NodeId → String → List Char}
    (h : Walk.Means overwritten w Evaluator.expansion spelledOut den) :
    den .fragment ⟨1⟩ "value" = "(modelMatrix * vec4(position, 1.0)).xyz * 0.5".toList := by
  cases hdisc
  have hposition : ∀ stage,
      den stage ⟨0⟩ "value" = "(modelMatrix * vec4(position, 1.0)).xyz".toList := by
    intro stage
    have hnone : ∀ m ∈ (overwritten.get ⟨0⟩).toNode.producers, ∀ stage o spec,
        (overwritten.design m).outputs.get? o = some spec →
          den stage m o = everywhere "" stage m o := nofun
    rw [h ⟨0⟩ (by decide +kernel) stage "value" _ rfl, Evaluator.outputValue_congr hnone]
    cases stage <;> decide +kernel
  have hproducer : ∀ m ∈ (overwritten.get ⟨1⟩).toNode.producers, ∀ stage o spec,
      (overwritten.design m).outputs.get? o = some spec →
        den stage m o = everywhere "(modelMatrix * vec4(position, 1.0)).xyz" stage m o := by
    intro m hm stage o spec ho
    obtain rfl := List.mem_singleton.1 hm
    obtain ⟨rfl, -⟩ := Prod.mk.inj (List.mem_singleton.1 ((Table.get?_eq_some_iff _ _ _).1 ho))
    exact hposition stage
  rw [h ⟨1⟩ (by decide +kernel) .fragment "value" _ rfl, Evaluator.outputValue_congr hproducer]
  decide +kernel

/-- The fragment stage gives the variable of an output half of what the slot has written to the
varying, and not half of the position. -/
theorem drawn_value_overwritten : ∃ shader w, overwritten.compile ⟨2⟩ = .ok shader ∧
    Walk.discover overwritten ⟨2⟩ = .ok w ∧ Walk.ExpressionOnly overwritten ⟨2⟩ w ∧
    Evaluator.expansion.Lawful w.diagram ∧ ⟨1⟩ ∈ w.ids ∧
    (w.share ⟨1⟩).stages.contains .fragment = true ∧
    (overwritten.design ⟨1⟩).isMaster = false ∧
    shader.fragment.statements = [.comment "Half (Half_1)",
      .declare "vec3" "Half_1_out_value" "v_WorldPosition_2_value * 0.5",
      .assign "gl_FragColor" "vec4(Half_1_out_value, 1.0)"] ∧
    Evaluator.expansion.run (Evaluator.expansion.initial spelledOut shader .fragment)
      shader.fragment.statements "Half_1_out_value" = "vec3(0.0) * 0.5".toList ∧
    ∃ den, Walk.Means overwritten w Evaluator.expansion spelledOut den ∧
      den .fragment ⟨1⟩ "value" = "(modelMatrix * vec4(position, 1.0)).xyz * 0.5".toList := by
  have h : ((overwritten.compile ⟨2⟩).toOption.map fun shader => (shader.fragment.statements,
      Evaluator.expansion.run (Evaluator.expansion.initial spelledOut shader .fragment)
        shader.fragment.statements "Half_1_out_value")) =
      some ([.comment "Half (Half_1)",
        .declare "vec3" "Half_1_out_value" "v_WorldPosition_2_value * 0.5",
        .assign "gl_FragColor" "vec4(Half_1_out_value, 1.0)"], "vec3(0.0) * 0.5".toList) := by
    decide +kernel
  obtain ⟨shader, hc, hfacts⟩ := exists_of_toOption h
  obtain ⟨hstatements, hrun⟩ := Prod.mk.inj hfacts
  obtain ⟨w, hdisc⟩ : ∃ w, Walk.discover overwritten ⟨2⟩ = .ok w := ⟨_, rfl⟩
  have hw := Walk.discover_ok hdisc
  have hslots : ∀ n : NodeId, n ≠ ⟨2⟩ → (overwritten.design n).isMaster = false := by
    rintro ⟨_ | _ | _ | _⟩ hne
    · rfl
    · rfl
    · exact absurd rfl hne
    · rfl
  have hplain : ∀ n : NodeId, (overwritten.get n).toNode.isPlain = true := by
    rintro ⟨_ | _ | _ | _⟩
    · decide +kernel
    · decide +kernel
    · decide +kernel
    · rfl
  have hspelled : ∀ n : NodeId,
      (overwritten.get n).toNode.names.all (·.toList.all isWordChar) = true := by
    rintro ⟨_ | _ | _ | _⟩ <;> rfl
  have hx := hw.expressionOnly_of_isPlain (fun n _ => hslots n) fun n _ => hplain n
  have hE := hw.lawful_expansion fun n _ => hspelled n
  have hemitted : ⟨1⟩ ∈ w.ids ∧ (w.share ⟨1⟩).stages.contains .fragment = true := by
    cases hdisc
    exact ⟨by decide +kernel, by decide +kernel⟩
  obtain ⟨den, hden, -⟩ := hw.exists_means Evaluator.expansion spelledOut
  exact ⟨shader, w, hc, hdisc, hx, hE, hemitted.1, hemitted.2, rfl, hstatements, hrun, den, hden,
    means_overwritten hdisc hden⟩

end Overwritten

end ShaderGraph
