import ShaderGraph.Glsl.Word
import ShaderGraph.Graph.Participation
import ShaderGraph.Shader.Error
import ShaderGraph.Shader.Source

/-!
# Emission of stages

Every node of a stage is emitted as one block: its literal and raw inputs, its outputs and its
body, in which the words for inputs, outputs and the uniform of its clock are replaced by generated
names. Edges need no statement, since they are read from the producer directly. The slots of the
root come last.
-/

namespace ShaderGraph

namespace Entry

def inputName (e : Entry) (port : String) : String := s!"{e.ident}_in_{port}"
def outputName (e : Entry) (output : String) : String := s!"{e.ident}_out_{output}"
def varyingName (e : Entry) (output : String) : String := s!"v_{e.ident}_{output}"
def uniformName (e : Entry) (clock : Clock) : String := s!"u_{e.ident}_{clock.uniform}"

end Entry

/-- What a word of a node's code refers to. -/
inductive Reference where
  | input (port : String)
  | output (name : String)
  | uniform (name : String)
  | ambient
deriving DecidableEq

def Reference.ofWord (word : String) : Reference :=
  match word.toList with
  | 'i' :: 'n' :: '_' :: rest => .input (String.ofList rest)
  | 'o' :: 'u' :: 't' :: '_' :: rest => .output (String.ofList rest)
  | 'u' :: '_' :: rest => .uniform (String.ofList rest)
  | _ => .ambient

/-- An input as it is emitted: the statements that declare it and the expression to read it by. -/
structure Wire where
  port : String
  statements : List Statement
  expr : String
deriving DecidableEq

namespace Plan

variable (p : Plan) (stage : Stage)

/-- Reads an edge from its producer, or from the varying that carries the output. -/
def reference (consumer : Entry) (name : String) (port : Port Nat) (producer : Nat)
    (output : String) : Except CompileError String := do
  let kind ← ((p.diagram.design producer).outputKind output).mapError
    (.fault consumer.ident name (some stage))
  let some entry := p.diagram.entries[producer]?
    | throw (.unresolvedPort consumer.ident name (some stage))
  let source :=
    if stage = .fragment ∧ output ∈ (p.share producer).varyings then entry.varyingName output
    else entry.outputName output
  return Glsl.widen source kind port.kind

def wire (e : Entry) (name : String) (port : Port Nat) : Except CompileError Wire := do
  let own := e.inputName name
  match port.source with
  | none => throw (.unresolvedPort e.ident name (some stage))
  | some (.literal v) =>
    return ⟨name, [.declare port.kind.type own (Glsl.widen v.toGlsl v.kind port.kind)], own⟩
  | some (.raw expr) => return ⟨name, [.declare port.kind.type own expr], own⟩
  | some (.edge producer output) =>
    return ⟨name, [], ← p.reference stage e name port producer output⟩

end Plan

/-- What a word of a node's code is replaced by. -/
def Entry.rename (e : Entry) (stage : Stage) (wires : List Wire) (word : String) :
    Except CompileError (Option String) :=
  match Reference.ofWord word with
  | .input port =>
    match wires.find? (·.port = port) with
    | some wire => .ok (some wire.expr)
    | none => .error (.unresolvedPort e.ident port (some stage))
  | .output name =>
    if e.node.design.outputs.contains name then .ok (some (e.outputName name))
    else .error (.unresolvedPort e.ident word (some stage))
  | .uniform name =>
    match e.node.design.clock with
    | some clock => .ok (if clock.uniform = name then some (e.uniformName clock) else none)
    | none => .ok none
  | .ambient => .ok none

/-- The declaration of an output. -/
def Entry.declaration (e : Entry) (stage : Stage) (wires : List Wire) (name : String)
    (output : Output) : Except CompileError Statement := do
  let init ← match output.expr with
    | some expr => Glsl.replaceWords (e.rename stage wires) expr
    | none => pure output.kind.zero
  return .declare output.kind.type (e.outputName name) init

/-- The body of a node for a stage, if it has one. -/
def Entry.scope (e : Entry) (stage : Stage) (wires : List Wire) :
    Except CompileError (List Statement) :=
  match (e.node.design.code stage).body with
  | some body => return [.block (← Glsl.replaceWords (e.rename stage wires) body)]
  | none => return []

namespace Plan

variable (p : Plan) (stage : Stage)

/-- The assignments of a node's varyings, which the vertex stage makes. -/
def handOver (i : Nat) : List Statement :=
  let e := p.diagram.entry i
  match stage with
  | .vertex => (p.share i).varyings.map fun o => .assign (e.varyingName o) (e.outputName o)
  | .fragment => []

def emitNode (i : Nat) : Except CompileError (List Statement) := do
  let e := p.diagram.entry i
  let wires ← e.node.inputs.entries.mapM fun (name, port) => p.wire stage e name port
  let outputs ← e.node.design.outputs.entries.mapM fun (name, output) =>
    e.declaration stage wires name output
  let scope ← e.scope stage wires
  return .comment s!"{e.node.name} ({e.ident})" ::
    (wires.flatMap Wire.statements ++ outputs ++ scope ++ p.handOver stage i)

/-- The value of a slot's input; an input without a source has none. -/
def slotValue (name : String) (port : Port Nat) : Except CompileError (Option String) := do
  match port.source with
  | none => return none
  | some (.literal v) => return some (Glsl.widen v.toGlsl v.kind port.kind)
  | some (.raw expr) => return some expr
  | some (.edge producer output) =>
    return some (← p.reference stage p.diagram.root name port producer output)

/-- The write of one slot of the root, if it belongs to the stage and its input has a source. -/
def emitSlot (name : String) (slot : Slot) : Except CompileError (List Statement) := do
  if slot.stage ≠ stage then return []
  let some port := p.diagram.root.node.inputs.get? name | return []
  let some value ← p.slotValue stage name port | return []
  return [.assign slot.target (slot.expression value)]

/-- The varyings of all nodes, in the order of their numbers. -/
def varyings : List Varying :=
  (List.range p.diagram.entries.length).flatMap fun i =>
    let e := p.diagram.entry i
    (p.share i).varyings.filterMap fun output =>
      (e.node.design.outputs.get? output).map fun spec =>
        ⟨spec.kind.type, e.varyingName output⟩

/-- The uniform of a node, if it has a clock. -/
def uniform? (i : Nat) : Option String :=
  let e := p.diagram.entry i
  e.node.design.clock.map e.uniformName

/-- The top-level texts of the emitted nodes, each at its first place only. -/
def headers : List String :=
  let texts := (p.stageOrder stage).filterMap fun i =>
    ((p.diagram.design i).code stage).header.map fun text =>
      String.ofList (trimBlanks text.toList)
  texts.foldl (fun seen text => if text ∈ seen then seen else seen ++ [text]) []

def emit : Except CompileError StageSource := do
  let nodes ← (p.stageOrder stage).mapM (p.emitNode stage)
  let slots ← p.diagram.root.node.design.slots.entries.mapM fun (name, slot) =>
    p.emitSlot stage name slot
  return {
    uniforms := (p.stageOrder stage).filterMap p.uniform?
    varyings := p.varyings
    headers := p.headers stage
    statements := nodes.flatten ++ slots.flatten }

end Plan

end ShaderGraph
