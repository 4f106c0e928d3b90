import ShaderGraph.Graph.Port

/-!
# Nodes

A node is a design with ports; a template is a node whose edges lead to instances of a store. The
functions that declare parts of a template name it first, so that declarations can be chained.
-/

namespace ShaderGraph

structure Node (ρ : Type) where
  design : Design
  inputs : Table (Port ρ)
deriving DecidableEq

namespace Node

variable {ρ σ : Type}

def named (name : String) : Node ρ := ⟨.named name, .empty⟩

instance : Inhabited (Node ρ) := ⟨named ""⟩

def name (n : Node ρ) : String := n.design.name

/-- The node with its producers named otherwise. -/
def map (f : ρ → σ) (n : Node ρ) : Node σ := ⟨n.design, n.inputs.map fun _ p => p.map f⟩

/-- The producers that the inputs read, in the order of the ports. -/
def producers (n : Node ρ) : List ρ := n.inputs.values.filterMap fun p => p.edge?.map Prod.fst

/-- The input that a stack threads its value into. -/
def primaryInput (n : Node ρ) : Option String :=
  n.design.primary <|> n.inputs.keys.head?

def input (n : Node ρ) (name : String) (port : Port ρ) : Node ρ :=
  { n with inputs := n.inputs.insert name port }

/-- An output with a first value. -/
def output (n : Node ρ) (name : String) (kind : Kind) (expr : String) : Node ρ :=
  { n with design.outputs := n.design.outputs.insert name ⟨kind, some expr⟩ }

/-- An output that starts at zero and is left to the body. -/
def bodyOutput (n : Node ρ) (name : String) (kind : Kind) : Node ρ :=
  { n with design.outputs := n.design.outputs.insert name ⟨kind, none⟩ }

/-- An input whose value is written to a slot; it may stay without a source. -/
def slot (n : Node ρ) (name : String) (port : Port ρ) (slot : Slot) : Node ρ :=
  { n with
    design.slots := n.design.slots.insert name slot
    inputs := n.inputs.insert name { port with optional := true } }

def header (n : Node ρ) (stage : Stage) (text : String) : Node ρ :=
  match stage with
  | .vertex => { n with design.vertex.header := some text }
  | .fragment => { n with design.fragment.header := some text }

def body (n : Node ρ) (stage : Stage) (text : String) : Node ρ :=
  match stage with
  | .vertex => { n with design.vertex.body := some text }
  | .fragment => { n with design.fragment.body := some text }

def primary (n : Node ρ) (input : String) : Node ρ := { n with design.primary := some input }

def interpolated (n : Node ρ) : Node ρ := { n with design.interpolated := true }

def clock (n : Node ρ) (clock : Clock) : Node ρ := { n with design.clock := some clock }

end Node

end ShaderGraph
