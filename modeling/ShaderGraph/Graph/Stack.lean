import ShaderGraph.Graph.Build

/-!
# Stacks

A stack threads a value through filters. Its head has the declared inputs and outputs, the primary
input of each filter reads the first output of what comes before it, and the tail, which stands for
the stack, reads the last filter and leaves its wiring to the head.
-/

namespace ShaderGraph

structure Stack where
  name : String
  inputs : Table (Port NodeId)
  /-- The first output is threaded through the filters. -/
  outputs : Table Output
  filters : List NodeId

namespace Stack

def named (name : String) : Stack := ⟨name, .empty, .empty, []⟩

def input (s : Stack) (name : String) (port : Port NodeId) : Stack :=
  { s with inputs := s.inputs.insert name port }

def output (s : Stack) (name : String) (kind : Kind) (expr : String) : Stack :=
  { s with outputs := s.outputs.insert name ⟨kind, some expr⟩ }

def filter (s : Stack) (id : NodeId) : Stack := { s with filters := s.filters ++ [id] }

def head (s : Stack) : Template :=
  ⟨{ Design.named s.name with outputs := s.outputs }, s.inputs⟩

def tailName (s : Stack) : String := s.name ++ " Output"

/-- Wires the primary input of a filter to an output and gives the filter's own first output. -/
def thread (name : String) (previous : NodeId × String) (filter : NodeId) :
    Build (NodeId × String) := do
  let node := (← Build.store).get filter
  let some primary := node.primaryInput | throw (.noPrimaryInput node.name)
  if ((node.inputs.get? primary).bind Port.source).isSome then
    Build.notify ⟨name, node.name, primary⟩
  Build.setInput filter primary (.edge previous.1 previous.2)
  let some output := node.design.primaryOutput | throw (.fault name primary (.noOutput node.name))
  return (filter, output)

def assemble (s : Stack) (props : Props) : Build NodeId := do
  let head ← s.head.instantiateWith props
  let some output := s.outputs.keys.head? | throw (.fault s.name "" (.noOutput s.name))
  let (last, output) ← s.filters.foldlM (thread s.name) (head, output)
  let kind ← ((← Build.store).design last).outputKind output
    |>.mapError (NodeError.fault s.tailName "value")
  let tail : Template := Node.named s.tailName
    |>.input "value" ((Port.ofKind kind).wired (.edge last output))
    |>.output "value" kind "in_value"
  Build.add ⟨tail, some head⟩

end Stack

end ShaderGraph
