import ShaderGraph.Graph.Node

/-!
# Stores of instances

A store holds the instances of nodes under ids that it gives out in order. Instances are only ever
added and rewired. An instance with a delegate leaves its wiring to the delegate, which is older;
`Store.owner` is the instance at the end of the chain, and `Store.setInput` changes one source of
it or nothing.
-/

namespace ShaderGraph

structure NodeId where
  index : Nat
deriving DecidableEq, Inhabited

abbrev Template := Node NodeId

structure Instance extends Node NodeId where
  /-- The instance that is wired in place of this one. -/
  delegate : Option NodeId
deriving DecidableEq

/-- An instance without inputs and outputs. -/
instance : Inhabited Instance := ⟨⟨.named "", none⟩⟩

/-- Why a node cannot be built or wired. -/
inductive NodeError where
  | unknownProperty (node property : String)
  | unknownInput (node port : String)
  | fault (node port : String) (fault : Fault)
  | noPrimaryInput (node : String)
  | unknownType (id : String)
deriving DecidableEq

namespace NodeError

def message : NodeError → String
  | .unknownProperty node property => s!"{node}: unknown property `{property}`"
  | .unknownInput node port => s!"{node}: no input named `{port}`"
  | .fault node port .nonFinite => s!"{node}.{port}: literal is not a finite number"
  | .fault node port (.noOutput producer) =>
    s!"{node}.{port}: `{producer}` has no outputs to connect"
  | .fault node port (.unknownOutput producer output) =>
    s!"{node}.{port}: `{producer}` has no output `{output}`"
  | .fault node port (.mismatch expected found) =>
    s!"{node}.{port}: expected {expected.word}, found {found.word}"
  | .noPrimaryInput node => s!"{node}: filter has no primary input"
  | .unknownType id => s!"Unknown node type: {id}"

end NodeError

structure Store where
  instances : Array Instance

namespace Store

def empty : Store := ⟨#[]⟩

instance : Inhabited Store := ⟨empty⟩

def size (s : Store) : Nat := s.instances.size

/-- The instance with an id; an id that was never given out stands for an instance without inputs
and outputs. -/
def get (s : Store) (id : NodeId) : Instance := s.instances.getD id.index default

def design (s : Store) (id : NodeId) : Design := (s.get id).design

def add (s : Store) (i : Instance) : NodeId × Store := (⟨s.size⟩, ⟨s.instances.push i⟩)

def set (s : Store) (id : NodeId) (i : Instance) : Store := ⟨s.instances.setIfInBounds id.index i⟩

/-- The instance whose inputs are wired when this one is. -/
def owner (s : Store) (id : NodeId) : NodeId :=
  match (s.get id).delegate with
  | none => id
  | some other => if other.index < id.index then s.owner other else id
termination_by id.index

/-- Gives the input of an instance another source, if the instance has such an input and the source
fits it. -/
def setInput (s : Store) (id : NodeId) (name : String) (source : Source NodeId) :
    Except NodeError Store :=
  let owner := s.owner id
  let node := s.get owner
  match node.inputs.get? name with
  | none => .error (.unknownInput node.name name)
  | some port =>
    match (port.wired source).validate s.design with
    | .error fault => .error (.fault node.name name fault)
    | .ok () =>
      .ok (s.set owner { node with inputs := node.inputs.insert name (port.wired source) })

/-- An edge to the first output of an instance. An instance without outputs gets an edge that fits
no port. -/
def primaryEdge (s : Store) (id : NodeId) : Source NodeId :=
  .edge id ((s.design id).primaryOutput.getD "")

end Store

end ShaderGraph
