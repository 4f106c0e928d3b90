import ShaderGraph.Shader.Emission
import ShaderGraph.Shader.Uniforms

/-!
# Compilation

A graph compiles from a master node. Every port must have a source that fits, no two slots may
write one target, and then both stages are emitted; any error gives up the whole shader.
-/

namespace ShaderGraph

structure Shader where
  vertex : StageSource
  fragment : StageSource
  uniforms : Uniforms
deriving DecidableEq

namespace Shader

def source (s : Shader) : Stage → String
  | .vertex => s.vertex.render
  | .fragment => s.fragment.render

end Shader

namespace Plan

variable (p : Plan)

/-- Checks one port; it may lack a source only if it is optional. -/
def checkPort (ident : String) (stage : Option Stage) (name : String) (port : Port Nat) :
    Except CompileError Unit :=
  if port.source.isNone then
    if port.optional then .ok () else .error (.unresolvedPort ident name stage)
  else (port.validate p.diagram.design).mapError (.fault ident name stage)

/-- Checks all ports in the order of the nodes' numbers. -/
def checkPorts : Except CompileError Unit :=
  (List.range p.diagram.entries.length).forM fun i =>
    let e := p.diagram.entry i
    e.node.inputs.entries.forM fun (name, port) =>
      p.checkPort e.ident (p.share i).stages.first name port

/-- The slots of the root whose inputs have a source, with their inputs' names. -/
def wiredSlots : List (String × Slot) :=
  let root := p.diagram.root.node
  root.design.slots.entries.filter fun (name, _) =>
    ((root.inputs.get? name).bind Port.source).isSome

/-- Checks that no slot writes a target which an earlier one has written. -/
def checkSlots : Except CompileError Unit := do
  let _ ← p.wiredSlots.foldlM
    (fun (writers : List (String × String)) (name, slot) =>
      match writers.find? (·.1 = slot.target) with
      | some writer => .error (.duplicateSlotWrite slot.target writer.2 name)
      | none => .ok ((slot.target, name) :: writers))
    []

/-- Binds the clock of a node, if it has one. -/
def bindClock (b : Binder) (i : Nat) : Binder :=
  let e := p.diagram.entry i
  match e.node.design.clock with
  | some clock => b.bind i e.ident (e.uniformName clock) clock
  | none => b

/-- The uniforms of all clocks, in the order of the nodes' numbers. -/
def uniforms : Uniforms :=
  ((List.range p.diagram.entries.length).foldl p.bindClock .empty).finish

def compile : Except CompileError Shader := do
  p.checkPorts
  p.checkSlots
  return ⟨← p.emit .vertex, ← p.emit .fragment, p.uniforms⟩

end Plan

namespace Store

/-- The shader of the graph below a master. -/
def compile (s : Store) (root : NodeId) : Except CompileError Shader := do
  if !(s.design root).isMaster then throw (.rootNotMaster (s.design root).name)
  let walk ← (Walk.discover s root).mapError .graphCycle
  (Plan.ofDiagram walk.diagram).compile

end Store

end ShaderGraph
