import ShaderGraph.Proofs.Denotation

/-!
# Compilation keeps the meaning of a graph

For a graph of expressions, the statements of each stage give the variable of every output the
value that the output stands for (`stage_values`). The names that are written are written once, and
what is read has been written before, so every declaration can be evaluated in the environment at
the end of the stage.
-/

namespace ShaderGraph

variable {V : Type}

/-- Nodes that consist of expressions over their inputs and uniforms. Only the root has slots, and
neither expressions nor raw sources mention names that are generated. -/
structure Expressions {ρ : Type} (nodes : List ρ) (node : ρ → Node ρ) (root : ρ)
    (generated : String → Prop) : Prop where
  bodies : ∀ n ∈ nodes, ∀ stage, ((node n).design.code stage).body = none
  slots : ∀ n ∈ nodes, n ≠ root → (node n).design.isMaster = false
  outputs : ∀ n ∈ nodes, ∀ output spec, (node n).design.outputs.get? output = some spec →
    ∀ code ∈ spec.expr, ∀ word ∈ Glsl.words code,
      (∀ name, Reference.ofWord word ≠ .output name) ∧ ¬ generated word
  raws : ∀ n ∈ nodes, ∀ name port expr, (name, port) ∈ (node n).inputs.entries →
    port.source = some (.raw expr) → ∀ word ∈ Glsl.words expr, ¬ generated word

namespace Diagram

variable (d : Diagram)

/-- The diagram consists of expressions. -/
def ExpressionOnly : Prop := Expressions d.order (fun i => (d.entry i).node) 0 d.Generated

/-- Values of the outputs that are what the diagram says. -/
def Means (E : Evaluator V) (ambient : Stage → String → V) (den : Stage → Nat → String → V) :
    Prop :=
  E.Denotes (fun i => (d.entry i).node) (fun i => (d.entry i).uniformName) ambient den d.order

/-- What a stage starts with besides varyings: the values from outside of the graph. -/
structure Starts (ambient : Stage → String → V) (stage : Stage) (ρ : String → V) : Prop where
  plain : ∀ name, ¬ d.Generated name → ρ name = ambient stage name
  uniform : ∀ i < d.entries.length, ∀ clock, (d.design i).clock = some clock →
    ρ ((d.entry i).uniformName clock) = ambient stage ((d.entry i).uniformName clock)

/-- A node of a diagram draws an output through a varying. -/
def Draws (i j : Nat) (o : String) : Prop := Node.Draws (fun i => (d.entry i).node) i j o

/-- The varyings that a node of the fragment stage depends on have the values of the vertex
stage. -/
def Supplied (den : Stage → Nat → String → V) (stage : Stage) (ρ : String → V) (i : Nat) : Prop :=
  stage = .fragment → ∀ j o, d.Draws i j o → ρ ((d.entry j).varyingName o) = den .vertex j o

variable {d}

/-- What a node has of varyings comes to its reader as well, unless it is handed over itself. -/
theorem Supplied.producer {den : Stage → Nat → String → V} {stage : Stage} {ρ : String → V}
    {i j : Nat} (h : d.Supplied den stage ρ i) {name o : String}
    (he : (d.entry i).node.Edge name j o)
    (hj : ¬ (stage = .fragment ∧ (d.design j).interpolated = true)) : d.Supplied den stage ρ j := by
  intro hst k o' hdraws
  refine h hst k o' (.through he ?_ hdraws)
  exact Bool.eq_false_of_not_eq_true fun hm => hj ⟨hst, hm⟩

end Diagram

namespace Plan

variable {d : Diagram} {stage : Stage} (hd : d.WellFormed) (hp : (ofDiagram d).PortsFit)
include hd

section Run

variable {nodes : List (List Statement)}
variable (hn : ((ofDiagram d).stageOrder stage).mapM ((ofDiagram d).emitNode stage) = .ok nodes)
variable {E : Evaluator V} {ambient : Stage → String → V} {den : Stage → Nat → String → V}
variable {ρ : String → V} (hρ : d.Starts ambient stage ρ)
include hp hn hρ

theorem run_plain {l l' : List Statement} (hl : nodes.flatten = l ++ l') (name : String)
    (h : ¬ d.Generated name) : E.run ρ l name = ambient stage name := by
  rw [Evaluator.run_of_notMem, hρ.plain name h]
  intro hm
  refine h (generated_of_mem_targets hd hp hn ?_)
  rw [hl, targets_append]
  exact List.mem_append_left _ hm

omit hp in
theorem run_uniform {l l' : List Statement} (hl : nodes.flatten = l ++ l') {i : Nat}
    (hi : i < d.entries.length) {clock : Clock} (hclock : (d.design i).clock = some clock) :
    E.run ρ l ((d.entry i).uniformName clock) =
      ambient stage ((d.entry i).uniformName clock) := by
  rw [Evaluator.run_of_notMem, hρ.uniform i hi clock hclock]
  intro hm
  refine uniform_notMem_targets hd hn hi clock ?_
  rw [hl, targets_append]
  exact List.mem_append_left _ hm

omit hp hρ in
/-- A name that the input of a node declares is written in front of the node's outputs. -/
theorem declared_reads {i : Nat} (q : Place d stage nodes.flatten i) {w : Wire}
    (hwmem : w ∈ q.wires) {type name init : String}
    (hst : .declare type name init ∈ w.statements) :
    name ∈ targets q.front ∧ ∃ l₁ l₂, nodes.flatten = l₁ ++ l₂ ∧
      E.run ρ nodes.flatten name = E.eval (E.run ρ l₁) init := by
  have hfront : .declare type name init ∈ q.front := by
    refine List.mem_append_right _ (List.mem_cons_of_mem _ ?_)
    exact List.mem_flatMap.2 ⟨w, hwmem, hst⟩
  have hall : .declare type name init ∈ nodes.flatten := by
    rw [q.statements_eq]
    exact List.mem_append_left _ hfront
  exact ⟨List.mem_filterMap.2 ⟨_, hfront, rfl⟩,
    Evaluator.run_of_mem_declare (nodup_targets hd hn) hall ρ⟩

variable (hE : E.Lawful d) (hx : d.ExpressionOnly)
include hx

omit hp hρ in
/-- What carries an output to a node has the output's value in front of the node's outputs. -/
theorem edge_reads {i : Nat} (hi : i ∈ (ofDiagram d).stageOrder stage)
    (q : Place d stage nodes.flatten i)
    (hv : d.Supplied den stage ρ i)
    (ih : ∀ j ∈ d.producers i, j ∈ (ofDiagram d).stageOrder stage → d.Supplied den stage ρ j →
      ∀ o spec, (d.design j).outputs.get? o = some spec →
      E.run ρ nodes.flatten ((d.entry j).outputName o) = den stage j o)
    {name : String} {j : Nat} {o : String} (he : (d.entry i).node.Edge name j o) {spec : Output}
    (hspec : (d.design j).outputs.get? o = some spec) :
    d.Generated ((ofDiagram d).variableOf stage j o) ∧
      ((ofDiagram d).variableOf stage j o ∈ targets q.front ∨
        (ofDiagram d).variableOf stage j o ∉ targets nodes.flatten) ∧
      E.run ρ nodes.flatten ((ofDiagram d).variableOf stage j o) =
        den ((d.design j).sourceStage stage) j o := by
  have hlt := lt_of_mem_stageOrder hd hi
  have hprod := (Node.mem_producers _ _).2 ⟨name, o, he⟩
  have hj : j < d.entries.length := hd.producer_lt hlt hprod
  have hkey : o ∈ (d.entry j).node.design.outputs.keys := Table.mem_keys_of_get? hspec
  have hreads := readsIn_of_mem_stageOrder hi name
  have hcarried := carried_of_readsIn hd hlt he hreads
  rw [variableOf_of_readsIn hd hlt he hreads, Design.sourceStage]
  split_ifs at hcarried ⊢ with h
  · have hwritten := varying_notMem_targets hd hn h.1 hj o
    refine ⟨⟨j, hj, .varying o, .varying hkey, rfl⟩, .inr hwritten, ?_⟩
    rw [Evaluator.run_of_notMem hwritten, hv h.1 j o (.edge he h.2)]
  · have hmaster : (d.design j).isMaster = false := by
      refine hx.slots j (hd.mem_order.2 hj) ?_
      rintro rfl
      exact hd.root_notMem_producers hlt hprod
    have hjmem := mem_stageOrder.2 ⟨hd.mem_order.2 hj, hcarried.1, hmaster⟩
    have hvalue := ih j hprod hjmem (hv.producer he h) o spec hspec
    refine ⟨⟨j, hj, .output o, .output hkey, rfl⟩, .inl ?_, hvalue⟩
    exact q.output_mem_front hprod hjmem hspec

include hE

/-- What a node's code has for an input is a name, possibly widened, that has its value in front
of the node's outputs already, and it stands for the value of the input's source. -/
theorem wire_reads {i : Nat} (hi : i ∈ (ofDiagram d).stageOrder stage)
    (q : Place d stage nodes.flatten i)
    (hv : d.Supplied den stage ρ i)
    (ih : ∀ j ∈ d.producers i, j ∈ (ofDiagram d).stageOrder stage → d.Supplied den stage ρ j →
      ∀ o spec, (d.design j).outputs.get? o = some spec →
      E.run ρ nodes.flatten ((d.entry j).outputName o) = den stage j o)
    {name : String} {port : Port Nat} (hm : (name, port) ∈ (d.entry i).node.inputs.entries)
    {w : Wire} (hwmem : w ∈ q.wires)
    (hw : (ofDiagram d).wire stage (d.entry i) name port = .ok w) :
    ∃ x source target, w.expr = Glsl.widen x source target ∧ d.Generated x ∧
      (x ∈ targets q.front ∨ x ∉ targets nodes.flatten) ∧
      E.sourceValue (fun i => (d.entry i).node) ambient den stage port =
        some (E.converted source target (E.run ρ nodes.flatten x)) := by
  have hlt := lt_of_mem_stageOrder hd hi
  have hsame : ∀ (x : String) (kind : Kind), Glsl.widen x kind kind = x :=
    fun x kind => if_neg fun h => h.2 h.1
  have hsame' : ∀ (x : V) (kind : Kind), E.converted kind kind x = x :=
    fun x kind => if_neg fun h => h.2 h.1
  have hown : d.Generated ((d.entry i).inputName name) :=
    ⟨i, hlt, .input name, .input (Table.mem_keys_of_mem hm), rfl⟩
  simp only [wire] at hw
  split at hw
  · cases hw
  · rename_i v hs
    cases hw
    obtain ⟨htarget, l₁, l₂, hl, hrun⟩ :=
      declared_reads (E := E) (ρ := ρ) hd hn q hwmem (List.mem_singleton.2 rfl)
    refine ⟨_, port.kind, port.kind, (hsame _ _).symm, hown, .inl htarget, ?_⟩
    rw [hsame', hrun, hE.eval_literal hlt hm hs (run_plain hd hp hn hρ hl)]
    simp only [Evaluator.sourceValue, hs]
  · rename_i expr hs
    cases hw
    obtain ⟨htarget, l₁, l₂, hl, hrun⟩ :=
      declared_reads (E := E) (ρ := ρ) hd hn q hwmem (List.mem_singleton.2 rfl)
    refine ⟨_, port.kind, port.kind, (hsame _ _).symm, hown, .inl htarget, ?_⟩
    have hplain := hx.raws i (hd.mem_order.2 hlt) name port expr hm hs
    rw [hsame', hrun, hE.eval_plain hplain (run_plain hd hp hn hρ hl)]
    simp only [Evaluator.sourceValue, hs]
  · rename_i producer output hs
    have he := (port.edge?_eq_some_iff _ _).2 hs
    obtain ⟨spec, hspec, -, -, href⟩ := hp.exists_reference hd hlt hm he
    rw [href] at hw
    cases hw
    obtain ⟨hgen, htarget, hvalue⟩ := edge_reads hd hn hx hi q hv ih ⟨port, hm, he⟩ hspec
    refine ⟨_, spec.kind, port.kind, rfl, hgen, htarget, ?_⟩
    unfold Evaluator.sourceValue
    rw [hs, hvalue]
    exact Option.map_eq_some_iff.2 ⟨spec, hspec, rfl⟩

section Code

variable {i : Nat} (hi : i ∈ (ofDiagram d).stageOrder stage) (q : Place d stage nodes.flatten i)
variable (hv : d.Supplied den stage ρ i)
variable (ih : ∀ j ∈ d.producers i, j ∈ (ofDiagram d).stageOrder stage → d.Supplied den stage ρ j →
  ∀ o spec, (d.design j).outputs.get? o = some spec →
  E.run ρ nodes.flatten ((d.entry j).outputName o) = den stage j o)
include hi q hv ih

theorem rename_readable (word answer : String)
    (h : (d.entry i).rename stage q.wires word = .ok (some answer)) :
    Reference.ofWord word ≠ .ambient ∧ d.Readable answer := by
  have hlt := lt_of_mem_stageOrder hd hi
  unfold Entry.rename at h
  split at h
  · rename_i name hword
    refine ⟨by simp [hword], ?_⟩
    split at h
    · rename_i w hf
      cases h
      obtain ⟨port, hm, hmem, hw⟩ := q.exists_input hf
      obtain ⟨x, source, target, hexpr, hgen, -⟩ :=
        wire_reads hd hp hn hρ hE hx hi q hv ih hm hmem hw
      rw [hexpr]
      exact hgen.readable source target
    · cases h
  · rename_i name hword
    refine ⟨by simp [hword], ?_⟩
    split_ifs at h with hkey
    cases h
    exact .name ⟨i, hlt, .output name, .output ((Table.contains_eq_true_iff _ _).1 hkey), rfl⟩
  · rename_i name hword
    refine ⟨by simp [hword], ?_⟩
    split at h
    · rename_i clock hclock
      split_ifs at h
      · cases h
        exact .name ⟨i, hlt, .uniform clock.uniform, .uniform hclock, rfl⟩
      · cases h
    · cases h
  · cases h

/-- Behind the inputs of a node, the words of its expressions have the values that they stand
for. -/
theorem word_value {l l' : List Statement} (hl : nodes.flatten = l ++ l')
    (hfront : ∀ x ∈ targets q.front, x ∈ targets l) {word : String}
    {answer : Option String} (hanswer : (d.entry i).rename stage q.wires word = .ok answer)
    (houtput : ∀ o, Reference.ofWord word ≠ .output o) (hplain : ¬ d.Generated word) :
    (match (d.entry i).rename stage q.wires word with
      | .ok (some answer) => E.eval (E.run ρ l) answer
      | _ => E.run ρ l word) =
    E.wordValue (fun i => (d.entry i).node) (fun i => (d.entry i).uniformName) ambient den stage i
      word := by
  have hlt := lt_of_mem_stageOrder hd hi
  have hword : E.run ρ l word = ambient stage word := run_plain hd hp hn hρ hl word hplain
  unfold Evaluator.wordValue
  unfold Entry.rename at hanswer ⊢
  rcases hr : Reference.ofWord word with name | name | name | _ <;> simp only [hr] at hanswer ⊢
  · rcases hf : q.wires.find? (·.port = name) with _ | w <;> simp only [hf] at hanswer ⊢
    · cases hanswer
    · obtain ⟨port, hm, hmem, hw⟩ := q.exists_input hf
      obtain ⟨x, source, target, hexpr, hgen, htarget, hvalue⟩ :=
        wire_reads hd hp hn hρ hE hx hi q hv ih hm hmem hw
      have hkeep : E.run ρ l x = E.run ρ nodes.flatten x :=
        Evaluator.run_eq_of_targets hl (nodup_targets hd hn) (htarget.imp_left (hfront x))
      rw [hexpr, hE.eval_widen hgen, hkeep, (Table.get?_eq_some_iff _ _ _).2 hm,
        Option.bind_some, hvalue, Option.getD_some]
  · exact absurd hr (houtput name)
  · rcases hclock : (d.entry i).node.design.clock with _ | clock <;>
      simp only
    · exact hword
    · split_ifs with hu
      · have hgen : d.Generated ((d.entry i).uniformName clock) :=
          ⟨i, hlt, .uniform clock.uniform, .uniform hclock, rfl⟩
        exact (hE.name hgen _).trans (run_uniform hd hn hρ hl hlt hclock)
      · exact hword
  · exact hword

/-- The variable of an output ends up with the value of its expression. -/
theorem output_value {o : String} {spec : Output}
    (hspec : (d.design i).outputs.get? o = some spec) :
    E.run ρ nodes.flatten ((d.entry i).outputName o) =
      E.outputValue (fun i => (d.entry i).node) (fun i => (d.entry i).uniformName) ambient den
        stage i spec := by
  have hnd := nodup_targets hd hn
  obtain ⟨before, after, hsplit⟩ := List.append_of_mem ((Table.get?_eq_some_iff _ _ _).1 hspec)
  have houtputs := q.outputs_eq
  change (d.design i).outputs.entries.mapM _ = _ at houtputs
  rw [hsplit] at houtputs
  obtain ⟨front, st, rest, -, hst, -, hout⟩ := mapM_append_cons houtputs
  have hl : nodes.flatten = (q.front ++ front) ++ st :: (rest ++ (q.scope ++
      ((ofDiagram d).handOver stage i ++ q.later))) := by
    refine q.statements_eq.trans ?_
    simp only [Place.front, hout, List.append_assoc, List.cons_append]
  have hfront : ∀ x ∈ targets q.front, x ∈ targets (q.front ++ front) := by
    intro x hx
    rw [targets_append]
    exact List.mem_append_left _ hx
  have hrun : ∀ init, st = .declare spec.kind.type ((d.entry i).outputName o) init →
      E.run ρ nodes.flatten ((d.entry i).outputName o) =
        E.eval (E.run ρ (q.front ++ front)) init := by
    intro init hinit
    subst hinit
    exact Evaluator.run_of_write hl (fun _ => rfl) rfl hnd
  have hplain := run_plain (E := E) hd hp hn hρ hl
  unfold Evaluator.outputValue
  simp only [Entry.declaration] at hst
  rcases hexpr : spec.expr with _ | code <;> simp only [hexpr] at hst ⊢
  · cases hst
    rw [hrun _ rfl, hE.eval_zero spec.kind hplain]
  · obtain ⟨text, htext, hst⟩ := (bind_eq_ok_iff _ _ _).1 hst
    cases hst
    rw [hrun _ rfl, hE.replace (rename_readable hd hp hn hρ hE hx hi q hv ih) htext]
    refine hE.congr fun word hword => ?_
    obtain ⟨answer, hanswer⟩ := (Glsl.replaceWords_isOk_iff _ _).1 ⟨text, htext⟩ word hword
    obtain ⟨houtput, hgen⟩ := hx.outputs i (hd.mem_order.2 (lt_of_mem_stageOrder hd hi)) o spec
      hspec code hexpr word hword
    exact word_value hd hp hn hρ hE hx hi q hv ih hl hfront hanswer houtput hgen

end Code

/-- Behind the nodes of a stage, the variables of their outputs have the values that the outputs
stand for, if the varyings that a node depends on have theirs. -/
theorem run_output (hden : d.Means E ambient den) : ∀ i ∈ (ofDiagram d).stageOrder stage,
    d.Supplied den stage ρ i → ∀ o spec, (d.design i).outputs.get? o = some spec →
      E.run ρ nodes.flatten ((d.entry i).outputName o) = den stage i o := by
  have h : ∀ i ∈ d.order, i ∈ (ofDiagram d).stageOrder stage → d.Supplied den stage ρ i →
      ∀ o spec, (d.design i).outputs.get? o = some spec →
      E.run ρ nodes.flatten ((d.entry i).outputName o) = den stage i o := by
    refine hd.ordered.forall_mem fun i hi ih hmem hv o spec hspec => ?_
    obtain ⟨q⟩ := exists_place hd hn hmem
    rw [output_value hd hp hn hρ hE hx hmem q hv ih hspec, hden i hi stage o spec hspec]
  exact fun i hi => h i (mem_stageOrder.1 hi).1 hi

/-- The variable of an output is declared with the value that the output stands for. -/
theorem eval_declaration (hden : d.Means E ambient den) {i : Nat}
    (hi : i ∈ (ofDiagram d).stageOrder stage) (hv : d.Supplied den stage ρ i) {o : String}
    {spec : Output} (hspec : (d.design i).outputs.get? o = some spec) : ∃ before init after,
    nodes.flatten = before ++ .declare spec.kind.type ((d.entry i).outputName o) init :: after ∧
      E.eval (E.run ρ before) init = den stage i o := by
  obtain ⟨block, hblock, hok⟩ := mem_of_mapM hn hi
  obtain ⟨init, hdecl⟩ := declare_mem_of_emitNode hok hspec
  obtain ⟨before, after, hl⟩ := List.append_of_mem (List.mem_flatten_of_mem hblock hdecl)
  refine ⟨before, init, after, hl, ?_⟩
  calc
    E.eval (E.run ρ before) init = E.run ρ nodes.flatten ((d.entry i).outputName o) :=
      (Evaluator.run_of_write hl (fun _ => rfl) rfl (nodup_targets hd hn)).symm
    _ = den stage i o := run_output hd hp hn hρ hE hx hden i hi hv o spec hspec

/-- What is handed over is the value that the output stands for. -/
theorem run_varying (hden : d.Means E ambient den) (hst : stage = .vertex) {i : Nat}
    (hi : i ∈ (ofDiagram d).stageOrder stage) {o : String}
    (ho : o ∈ ((ofDiagram d).share i).varyings) :
    (d.entry i).varyingName o ∈ targets nodes.flatten ∧
      E.run ρ nodes.flatten ((d.entry i).varyingName o) = den stage i o := by
  have hnd := nodup_targets hd hn
  have hv : d.Supplied den stage ρ i := fun h => absurd (hst.symm.trans h) (by decide)
  have hlt := lt_of_mem_stageOrder hd hi
  obtain ⟨⟨spec, hspec⟩, -⟩ := of_mem_varyings hd hp hlt ho
  have hentry := (Table.get?_eq_some_iff _ _ _).1 hspec
  have hgen : d.Generated ((d.entry i).outputName o) :=
    ⟨i, hlt, .output o, .output (List.mem_map.2 ⟨_, hentry, rfl⟩), rfl⟩
  obtain ⟨q⟩ := exists_place hd hn hi
  obtain ⟨before, after, hsplit⟩ := List.append_of_mem ho
  have hhand : (ofDiagram d).handOver stage i =
      before.map (fun o => .assign ((d.entry i).varyingName o) ((d.entry i).outputName o)) ++
        .assign ((d.entry i).varyingName o) ((d.entry i).outputName o) ::
        after.map (fun o => .assign ((d.entry i).varyingName o) ((d.entry i).outputName o)) := by
    subst hst
    simp only [handOver, hsplit, List.map_append, List.map_cons]
    rfl
  have hl : nodes.flatten = (q.front ++ (q.outputs ++ (q.scope ++
      before.map (fun o => .assign ((d.entry i).varyingName o) ((d.entry i).outputName o))))) ++
      .assign ((d.entry i).varyingName o) ((d.entry i).outputName o) ::
      (after.map (fun o => .assign ((d.entry i).varyingName o) ((d.entry i).outputName o)) ++
        q.later) := by
    refine q.statements_eq.trans ?_
    simp only [Place.front, hhand, List.append_assoc, List.cons_append]
  have htarget : (d.entry i).outputName o ∈ targets (q.front ++ (q.outputs ++ (q.scope ++
      before.map (fun o =>
        .assign ((d.entry i).varyingName o) ((d.entry i).outputName o))))) := by
    obtain ⟨st, hst, hdecl⟩ := mem_of_mapM q.outputs_eq hentry
    obtain ⟨init, rfl⟩ := declaration_eq_ok hdecl
    exact List.mem_filterMap.2 ⟨_, List.mem_append_right _ (List.mem_append_left _ hst), rfl⟩
  have hmem : .assign ((d.entry i).varyingName o) ((d.entry i).outputName o) ∈ nodes.flatten :=
    hl ▸ List.mem_append_right _ List.mem_cons_self
  refine ⟨List.mem_filterMap.2 ⟨_, hmem, rfl⟩, ?_⟩
  calc
    E.run ρ nodes.flatten ((d.entry i).varyingName o) = E.eval (E.run ρ _)
        ((d.entry i).outputName o) := Evaluator.run_of_write hl (fun _ => rfl) rfl hnd
    _ = E.run ρ _ ((d.entry i).outputName o) := hE.name hgen _
    _ = E.run ρ nodes.flatten ((d.entry i).outputName o) :=
      Evaluator.run_eq_of_targets hl hnd (.inl htarget)
    _ = den stage i o :=
      run_output hd hp hn hρ hE hx hden i hi hv o spec hspec

end Run

end Plan

/-- The environment in which the main function of a stage starts. In the fragment stage, varyings
have the values that the main function of the vertex stage leaves in them. -/
def Evaluator.initial (E : Evaluator V) (ambient : Stage → String → V) (shader : Shader) :
    Stage → String → V
  | .vertex => ambient .vertex
  | .fragment => fun name =>
    if name ∈ shader.fragment.varyings.map Varying.name then
      E.run (ambient .vertex) shader.vertex.statements name
    else ambient .fragment name

namespace Plan

section Shader

variable {d : Diagram} {shader : Shader} (hd : d.WellFormed)
variable (hc : (ofDiagram d).compile = .ok shader)
variable {E : Evaluator V} {ambient : Stage → String → V} {den : Stage → Nat → String → V}
variable (hE : E.Lawful d) (hx : d.ExpressionOnly) (hden : d.Means E ambient den)
include hd hc

omit hd in
theorem mem_varyings_fragment_iff {name : String} :
    name ∈ shader.fragment.varyings.map Varying.name ↔ ∃ i < d.entries.length,
      ∃ o ∈ ((ofDiagram d).share i).varyings, ∃ spec,
        (d.design i).outputs.get? o = some spec ∧ (d.entry i).varyingName o = name := by
  have hvaryings : shader.fragment.varyings = (ofDiagram d).varyings := by
    obtain ⟨_, _, -, -, hsource⟩ := (emit_eq_ok_iff _ _).1 (emit_of_compile hc .fragment)
    exact congrArg StageSource.varyings hsource
  rw [hvaryings]
  simp only [List.mem_map, mem_varyings_iff]
  constructor
  · rintro ⟨_, ⟨i, hi, o, ho, spec, hspec, rfl⟩, rfl⟩
    exact ⟨i, hi, o, ho, spec, hspec, rfl⟩
  · rintro ⟨i, hi, o, ho, spec, hspec, rfl⟩
    exact ⟨_, ⟨i, hi, o, ho, spec, hspec, rfl⟩, rfl⟩

omit hd in
/-- A stage runs its nodes, and then its slots, which write nothing but their targets. -/
theorem exists_nodes (E : Evaluator V) (stage : Stage) : ∃ nodes slots : List (List Statement),
    ((ofDiagram d).stageOrder stage).mapM ((ofDiagram d).emitNode stage) = .ok nodes ∧
    (shader.stage stage).statements = nodes.flatten ++ slots.flatten ∧
    ∀ name, name ∉ (ofDiagram d).slotTargets stage → ∀ ρ : String → V,
      E.run ρ (shader.stage stage).statements name = E.run ρ nodes.flatten name := by
  obtain ⟨nodes, slots, hn, hslots, hsource⟩ :=
    (emit_eq_ok_iff _ _).1 (emit_of_compile hc stage)
  have hst : (shader.stage stage).statements = nodes.flatten ++ slots.flatten :=
    congrArg StageSource.statements hsource
  refine ⟨nodes, slots, hn, hst, fun name hname ρ => ?_⟩
  rw [hst, Evaluator.run_append, Evaluator.run_of_notMem]
  rwa [targets_slots hslots]

theorem starts_initial (stage : Stage) :
    d.Starts ambient stage (E.initial ambient shader stage) := by
  cases stage with
  | vertex => exact ⟨fun _ _ => rfl, fun _ _ _ _ => rfl⟩
  | fragment =>
    refine ⟨fun name hplain => if_neg fun hm => hplain ?_,
      fun i hi clock hclock => if_neg fun hm => ?_⟩
    · obtain ⟨i, hi, o, -, spec, hspec, rfl⟩ := (mem_varyings_fragment_iff hc).1 hm
      exact ⟨i, hi, .varying o,
        .varying (Table.mem_keys_of_get? hspec), rfl⟩
    · obtain ⟨j, hj, o, -, -, -, he⟩ := (mem_varyings_fragment_iff hc).1 hm
      change (d.entry j).label (.varying o) = (d.entry i).label (.uniform clock.uniform) at he
      cases (hd.label_inj hj hi he).2

include hx

omit hc in
/-- What a node of the fragment stage draws is handed over. -/
theorem mem_varyings_of_draws {i j : Nat} {o : String} (h : d.Draws i j o) :
    i ∈ (ofDiagram d).stageOrder .fragment →
      j < d.entries.length ∧ o ∈ ((ofDiagram d).share j).varyings := by
  unfold Diagram.Draws at h
  induction h with
  | @edge i j name o he hinter =>
    intro hi
    have hlt := lt_of_mem_stageOrder hd hi
    have hcarried := carried_of_readsIn hd hlt he (readsIn_of_mem_stageOrder hi name)
    rw [if_pos ⟨rfl, hinter⟩] at hcarried
    exact ⟨hd.edge_lt hlt he, hcarried.1⟩
  | @through i j k name o' o he hinter _ ih =>
    intro hi
    have hlt := lt_of_mem_stageOrder hd hi
    have hj := hd.mem_order.2 (hd.edge_lt hlt he)
    have hcarried := carried_of_readsIn hd hlt he (readsIn_of_mem_stageOrder hi name)
    rw [if_neg fun h => Bool.false_ne_true (hinter.symm.trans h.2)] at hcarried
    refine ih (mem_stageOrder.2 ⟨hj, hcarried.1, hx.slots j hj ?_⟩)
    rintro rfl
    exact hd.root_notMem_producers hlt ((Node.mem_producers _ _).2 ⟨name, o', he⟩)

include hE hden

/-- The vertex stage leaves in a varying the value of its output, unless a slot has the varying for
its target. -/
theorem vertex_varying {i : Nat} (hi : i < d.entries.length) {o : String}
    (ho : o ∈ ((ofDiagram d).share i).varyings)
    (hslot : (d.entry i).varyingName o ∉ (ofDiagram d).slotTargets .vertex) :
    E.run (ambient .vertex) shader.vertex.statements ((d.entry i).varyingName o) =
      den .vertex i o := by
  have hp := portsFit_of_compile hc
  obtain ⟨-, hvertex, k, hk, hread⟩ := of_mem_varyings hd hp hi ho
  have hmaster : (d.design i).isMaster = false := by
    refine hx.slots i (hd.mem_order.2 hi) ?_
    rintro rfl
    exact hd.root_notMem_producers hk hread
  have hmem : i ∈ (ofDiagram d).stageOrder .vertex :=
    mem_stageOrder.2 ⟨hd.mem_order.2 hi, hvertex, hmaster⟩
  obtain ⟨nodes, slots, hn, -, hrun⟩ := exists_nodes hc E .vertex
  have hstart : d.Starts ambient .vertex (ambient .vertex) := ⟨fun _ _ => rfl, fun _ _ _ _ => rfl⟩
  exact (hrun _ hslot _).trans (run_varying hd hp hn hstart hE hx hden rfl hmem ho).2

/-- The fragment stage starts with what a node depends on, unless slots have it for targets. -/
theorem supplied_initial {stage : Stage} {i : Nat} (hi : i ∈ (ofDiagram d).stageOrder stage)
    (hslots : stage = .fragment → ∀ j o, d.Draws i j o →
      (d.entry j).varyingName o ∉ (ofDiagram d).slotTargets .vertex) :
    d.Supplied den stage (E.initial ambient shader stage) i := by
  rintro rfl j o hdraws
  obtain ⟨hj, ho⟩ := mem_varyings_of_draws hd hx hdraws hi
  obtain ⟨⟨spec, hspec⟩, -⟩ := of_mem_varyings hd (portsFit_of_compile hc) hj ho
  refine (if_pos ((mem_varyings_fragment_iff hc).2 ⟨j, hj, o, ho, spec, hspec, rfl⟩)).trans ?_
  exact vertex_varying hd hc hE hx hden hj ho (hslots rfl j o hdraws)

/-- In each stage, the variable of an output is declared with the value that the output stands for,
and keeps it unless a slot has the variable for its target. In the fragment stage, no slot may have
a varying for its target that the node depends on. -/
theorem stage_values (stage : Stage) {i : Nat} (hi : i ∈ (ofDiagram d).stageOrder stage)
    (hslots : stage = .fragment → ∀ j o, d.Draws i j o →
      (d.entry j).varyingName o ∉ (ofDiagram d).slotTargets .vertex) {o : String} {spec : Output}
    (hspec : (d.design i).outputs.get? o = some spec) :
    (∃ before init after, (shader.stage stage).statements =
        before ++ .declare spec.kind.type ((d.entry i).outputName o) init :: after ∧
      E.eval (E.run (E.initial ambient shader stage) before) init = den stage i o) ∧
    ((d.entry i).outputName o ∉ (ofDiagram d).slotTargets stage →
      E.run (E.initial ambient shader stage) (shader.stage stage).statements
        ((d.entry i).outputName o) = den stage i o) := by
  have hp := portsFit_of_compile hc
  have hstart : d.Starts ambient stage (E.initial ambient shader stage) :=
    starts_initial hd hc stage
  have hv := supplied_initial hd hc hE hx hden hi hslots
  obtain ⟨nodes, slots, hn, hst, hrun⟩ := exists_nodes hc E stage
  obtain ⟨before, init, after, hl, heval⟩ :=
    eval_declaration hd hp hn hstart hE hx hden hi hv hspec
  refine ⟨⟨before, init, after ++ slots.flatten, ?_, heval⟩, fun hname => ?_⟩
  · rw [hst, hl, List.append_assoc, List.cons_append]
  · rw [hrun _ hname, run_output hd hp hn hstart hE hx hden i hi hv o spec hspec]

end Shader

end Plan

end ShaderGraph
