import ShaderGraph.Proofs.Execution
import ShaderGraph.Proofs.Participation

/-!
# The meaning of a graph

What an output of a node stands for in a stage is the value of its expression when every input has
the value of its source. An output that the fragment stage reads from an interpolated node has the
value that it has in the vertex stage. A graph without cycles has one such meaning
(`exists_denotes`, `Denotes.unique`).
-/

namespace ShaderGraph

variable {V ρ : Type}

/-- What comes to a node of the fragment stage from the vertex stage: the outputs of interpolated
nodes that it reads, directly or through nodes that are not interpolated. -/
inductive Node.Draws (node : ρ → Node ρ) : ρ → ρ → String → Prop
  | edge {n m : ρ} {name o : String} (he : (node n).Edge name m o)
    (hm : (node m).design.interpolated = true) : Draws node n m o
  | through {n m k : ρ} {name o' o : String} (he : (node n).Edge name m o')
    (hm : (node m).design.interpolated = false) (h : Draws node m k o) : Draws node n k o

namespace Evaluator

section Values

variable (E : Evaluator V) (node : ρ → Node ρ) (uniform : ρ → Clock → String)
variable (ambient : Stage → String → V) (den : Stage → ρ → String → V)

/-- The value of the source of a port in a stage, converted to the kind of the port; `den` says
what outputs stand for. -/
def sourceValue (stage : Stage) (port : Port ρ) : Option V :=
  match port.source with
  | none => none
  | some (.literal v) => some (E.converted v.kind port.kind (E.eval (ambient stage) v.toGlsl))
  | some (.raw expr) => some (E.eval (ambient stage) expr)
  | some (.edge producer output) =>
    ((node producer).design.outputs.get? output).map fun spec =>
      E.converted spec.kind port.kind
        (den ((node producer).design.sourceStage stage) producer output)

/-- What a word of a node's expressions stands for: an input, the uniform of the node's clock, or
what it is outside of the graph. -/
def wordValue (stage : Stage) (n : ρ) (word : String) : V :=
  match Reference.ofWord word with
  | .input name =>
    (((node n).inputs.get? name).bind (E.sourceValue node ambient den stage)).getD
      (ambient stage word)
  | .uniform name =>
    match (node n).design.clock with
    | some clock =>
      if clock.uniform = name then ambient stage (uniform n clock) else ambient stage word
    | none => ambient stage word
  | .output _ | .ambient => ambient stage word

def outputValue (stage : Stage) (n : ρ) (spec : Output) : V :=
  match spec.expr with
  | some code => E.eval (E.wordValue node uniform ambient den stage n) code
  | none => E.eval (ambient stage) spec.kind.zero

/-- In both stages, the outputs of the nodes in a list stand for the values of their
expressions. -/
def Denotes (nodes : List ρ) : Prop :=
  ∀ n ∈ nodes, ∀ stage output spec, (node n).design.outputs.get? output = some spec →
    den stage n output = E.outputValue node uniform ambient den stage n spec

end Values

section Unique

variable {E : Evaluator V} {node : ρ → Node ρ} {uniform : ρ → Clock → String}
variable {ambient : Stage → String → V} {den den' : Stage → ρ → String → V}

/-- What a node stands for depends on its producers only. -/
theorem outputValue_congr {n : ρ} (h : ∀ m ∈ (node n).producers, ∀ stage output spec,
      (node m).design.outputs.get? output = some spec →
      den stage m output = den' stage m output) (stage : Stage) (spec : Output) :
    E.outputValue node uniform ambient den stage n spec =
      E.outputValue node uniform ambient den' stage n spec := by
  have hsource : ∀ name port, (name, port) ∈ (node n).inputs.entries →
      E.sourceValue node ambient den stage port = E.sourceValue node ambient den' stage port := by
    intro name port hm
    unfold sourceValue
    rcases hs : port.source with _ | ⟨v | expr | ⟨producer, output⟩⟩
    · rfl
    · rfl
    · rfl
    · have he : port.edge? = some (producer, output) := by
        rw [Port.edge?, hs]
        rfl
      have hp := (Node.mem_producers _ _).2 ⟨name, output, port, hm, he⟩
      refine Option.map_congr fun spec hspec => ?_
      rw [h producer hp _ output spec hspec]
  have hword : E.wordValue node uniform ambient den stage n =
      E.wordValue node uniform ambient den' stage n := by
    funext word
    unfold wordValue
    split
    · rename_i name _
      rcases hg : (node n).inputs.get? name with _ | port
      · rfl
      · rw [Option.bind_some, Option.bind_some,
          hsource name port ((Table.get?_eq_some_iff _ _ _).1 hg)]
    all_goals rfl
  unfold outputValue
  rw [hword]

variable [DecidableEq ρ] {nodes : List ρ}
variable (ho : Search.Ordered (fun n => (node n).producers) nodes)
include ho

/-- A graph has at most one meaning. -/
theorem Denotes.unique (h : E.Denotes node uniform ambient den nodes)
    (h' : E.Denotes node uniform ambient den' nodes) : ∀ n ∈ nodes, ∀ stage output spec,
    (node n).design.outputs.get? output = some spec →
      den stage n output = den' stage n output := by
  refine ho.forall_mem fun n hn ih stage output spec hspec => ?_
  rw [h n hn stage output spec hspec, h' n hn stage output spec hspec]
  exact outputValue_congr ih stage spec

end Unique

section Map

variable {σ : Type} {E : Evaluator V} {node : ρ → Node ρ} {uniform : ρ → Clock → String}
variable {node' : σ → Node σ} {uniform' : σ → Clock → String}
variable {ambient : Stage → String → V}

/-- What outputs stand for does not depend on how nodes are referred to. -/
theorem outputValue_map (f : ρ → σ) {n : ρ} (hnode : node' (f n) = (node n).map f)
    (huniform : uniform' (f n) = uniform n)
    (hdesign : ∀ m ∈ (node n).producers, (node' (f m)).design = (node m).design)
    (den : Stage → σ → String → V) (stage : Stage) (spec : Output) :
    E.outputValue node' uniform' ambient den stage (f n) spec =
      E.outputValue node uniform ambient (fun stage m => den stage (f m)) stage n spec := by
  have hsource : ∀ name port, (name, port) ∈ (node n).inputs.entries →
      E.sourceValue node' ambient den stage (port.map f) =
        E.sourceValue node ambient (fun stage m => den stage (f m)) stage port := by
    intro name port hm
    unfold sourceValue
    rcases hs : port.source with _ | ⟨v | expr | ⟨producer, output⟩⟩ <;>
      simp only [Port.map, hs, Option.map_none, Option.map_some, Source.map]
    have he : port.edge? = some (producer, output) := by
      rw [Port.edge?, hs]
      rfl
    rw [hdesign producer ((Node.mem_producers _ _).2 ⟨name, output, port, hm, he⟩)]
  have hword : E.wordValue node' uniform' ambient den stage (f n) =
      E.wordValue node uniform ambient (fun stage m => den stage (f m)) stage n := by
    funext word
    unfold wordValue
    rw [hnode, huniform]
    split
    · rename_i name _
      simp only [Node.map, Table.get?_map]
      rcases hg : (node n).inputs.get? name with _ | port
      · rfl
      · simp only [Option.map_some, Option.bind_some,
          hsource name port ((Table.get?_eq_some_iff _ _ _).1 hg)]
    all_goals rfl
  unfold outputValue
  rw [hword]

end Map

/-- A graph whose nodes can be listed in dependency order has a meaning. -/
theorem exists_denotes [DecidableEq ρ] [Inhabited V] (E : Evaluator V) (node : ρ → Node ρ)
    (uniform : ρ → Clock → String) (ambient : Stage → String → V) : ∀ nodes : List ρ,
    nodes.Nodup → Search.Ordered (fun n => (node n).producers) nodes →
      ∃ den, E.Denotes node uniform ambient den nodes := by
  intro nodes
  induction nodes using List.reverseRecOn with
  | nil => exact fun _ _ => ⟨fun _ _ _ => default, fun n hn => by cases hn⟩
  | append_singleton nodes n ih =>
    intro hnd ho
    obtain ⟨den, hden⟩ := ih (List.nodup_append.1 hnd).1 ho.of_prefix
    have hnew : n ∉ nodes := fun hn => (List.nodup_append.1 hnd).2.2 n hn n (by simp) rfl
    let den' : Stage → ρ → String → V := fun stage m output =>
      if m = n then
        (((node n).design.outputs.get? output).map
          (E.outputValue node uniform ambient den stage n)).getD default
      else den stage m output
    have hcongr : ∀ m, (∀ k ∈ (node m).producers, k ∈ nodes) → ∀ stage spec,
        E.outputValue node uniform ambient den stage m spec =
          E.outputValue node uniform ambient den' stage m spec := by
      intro m hm
      refine outputValue_congr fun k hk stage output spec _ => ?_
      have hne : k ≠ n := ne_of_mem_of_not_mem (hm k hk) hnew
      exact (if_neg hne).symm
    refine ⟨den', fun m hm stage output spec hspec => ?_⟩
    rcases List.mem_append.1 hm with hm | hm
    · calc
        den' stage m output = den stage m output := if_neg (ne_of_mem_of_not_mem hm hnew)
        _ = _ := hden m hm stage output spec hspec
        _ = _ := hcongr m (fun k hk => ho.of_prefix.mem hm hk) stage spec
    · obtain rfl := List.mem_singleton.1 hm
      calc
        den' stage m output = E.outputValue node uniform ambient den stage m spec := by
          simp only [den', if_true, hspec, Option.map_some, Option.getD_some]
        _ = _ := hcongr m (ho nodes m [] rfl) stage spec

end Evaluator

end ShaderGraph
