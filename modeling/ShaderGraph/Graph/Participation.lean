import ShaderGraph.Graph.Walk

/-!
# Participation in stages

Slots of a master demand the values that they assign in their stages. A node takes part in a stage
for which it has a body or in which a consumer that takes part there reads it; an interpolated node
that the fragment stage reads takes part in the vertex stage instead and hands the outputs that are
read over in varyings.
-/

namespace ShaderGraph

/-- The stages that a node takes part in. -/
structure Stages where
  vertex : Bool
  fragment : Bool
deriving DecidableEq

namespace Stages

def none : Stages := ⟨false, false⟩

def contains (s : Stages) : Stage → Bool
  | .vertex => s.vertex
  | .fragment => s.fragment

def insert (s : Stages) : Stage → Stages
  | .vertex => { s with vertex := true }
  | .fragment => { s with fragment := true }

def toList (s : Stages) : List Stage := Stage.all.filter s.contains

/-- The first stage in the order of emission. -/
def first (s : Stages) : Option Stage := s.toList.head?

end Stages

structure Share where
  stages : Stages
  /-- The outputs that the fragment stage reads, in the order in which they were demanded. -/
  varyings : List String
deriving DecidableEq

instance : Inhabited Share := ⟨⟨.none, []⟩⟩

/-- That an output of a producer is read in a stage. -/
structure Demand where
  producer : Nat
  stage : Stage
  output : String
deriving DecidableEq

namespace Share

/-- The share of a node whose design has bodies for some stages. -/
def withBodies (share : Share) (d : Design) : Share :=
  { share with
    stages := Stage.all.foldl
      (fun stages stage => if (d.code stage).body.isSome then stages.insert stage else stages)
      share.stages }

/-- The share after an output is read in a stage. -/
def demanded (share : Share) (d : Design) (stage : Stage) (output : String) : Share :=
  if stage = .fragment ∧ d.interpolated then
    ⟨share.stages.insert .vertex,
      if output ∈ share.varyings then share.varyings else share.varyings ++ [output]⟩
  else { share with stages := share.stages.insert stage }

end Share

namespace Diagram

variable (d : Diagram)

/-- What the inputs of a node demand: those of a master in the stages of their slots, all others in
the stages of the node. -/
def demands (i : Nat) (stages : Stages) : List Demand :=
  let node := (d.entry i).node
  node.inputs.entries.flatMap fun (name, port) =>
    match port.edge? with
    | none => []
    | some (producer, output) =>
      let read := if node.design.isMaster then
          ((node.design.slots.get? name).map Slot.stage).toList
        else stages.toList
      read.map fun stage => ⟨producer, stage, output⟩

def demand (shares : List Share) (m : Demand) : List Share :=
  shares.modify m.producer fun share => share.demanded (d.design m.producer) m.stage m.output

/-- Settles one node after all its consumers and passes its demands on. -/
def settle (shares : List Share) (i : Nat) : List Share :=
  let shares := shares.modify i fun share => share.withBodies (d.design i)
  (d.demands i (shares.getD i default).stages).foldl d.demand shares

/-- The shares by number. Consumers are settled before their producers. -/
def shares : List Share :=
  d.order.reverse.foldl d.settle (List.replicate d.entries.length default)

end Diagram

/-- A diagram together with the shares of its nodes. -/
structure Plan where
  diagram : Diagram
  shares : List Share

namespace Plan

def ofDiagram (d : Diagram) : Plan := ⟨d, d.shares⟩

/-- The plan before any node takes part in a stage. -/
def idle (d : Diagram) : Plan := ⟨d, List.replicate d.entries.length default⟩

def share (p : Plan) (i : Nat) : Share := p.shares.getD i default

/-- The numbers of the nodes that are emitted in a stage, producers first; masters are not. -/
def stageOrder (p : Plan) (stage : Stage) : List Nat :=
  p.diagram.order.filter fun i =>
    (p.share i).stages.contains stage && !(p.diagram.design i).isMaster

end Plan

end ShaderGraph
