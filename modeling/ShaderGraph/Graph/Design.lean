import ShaderGraph.Graph.Clock
import ShaderGraph.Graph.Stage
import ShaderGraph.Kind
import ShaderGraph.Table

/-!
# Designs of nodes

What a node is apart from what its inputs are wired to: its name, its outputs and the code that it
contributes to each stage. A node that writes slots is a master.
-/

namespace ShaderGraph

/-- Code that a node contributes to one stage. -/
structure StageCode where
  /-- Top-level code. -/
  header : Option String
  /-- Statements after the outputs are initialised. -/
  body : Option String
deriving DecidableEq

structure Output where
  kind : Kind
  /-- The first value in terms of the inputs; none leaves the value to the body. -/
  expr : Option String
deriving DecidableEq

structure Design where
  /-- The display name, from which identifiers are made. -/
  name : String
  outputs : Table Output
  vertex : StageCode
  fragment : StageCode
  /-- The input that a stack threads its value into, if it is not the first one. -/
  primary : Option String
  /-- Whether the fragment stage reads the outputs from the vertex stage. -/
  interpolated : Bool
  clock : Option Clock
  /-- The slots written for inputs of the same names. -/
  slots : Table Slot
deriving DecidableEq

namespace Design

def named (name : String) : Design :=
  ⟨name, .empty, ⟨none, none⟩, ⟨none, none⟩, none, false, none, .empty⟩

def code (d : Design) : Stage → StageCode
  | .vertex => d.vertex
  | .fragment => d.fragment

def isMaster (d : Design) : Bool := !d.slots.isEmpty

/-- The first declared output. -/
def primaryOutput (d : Design) : Option String := d.outputs.keys.head?

end Design

end ShaderGraph
