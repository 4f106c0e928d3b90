import ShaderGraph.Graph.Store

/-!
# Building nodes

Building adds instances to a store and can fail; what was added or rewired before a failure stays.
A template becomes an instance as it is, or with properties, after which every port is checked.
-/

namespace ShaderGraph

/-- That a stack rewired an input of a filter which had a source already. -/
structure Notice where
  stack : String
  filter : String
  input : String
deriving DecidableEq

def Notice.message : String := "stack overrides a filter input that was already set"

structure Workspace where
  store : Store
  notices : List Notice

instance : Inhabited Workspace := ⟨⟨.empty, []⟩⟩

abbrev Build := ExceptT NodeError (StateM Workspace)

/-- Sources for inputs by name, in the order in which they are applied. -/
abbrev Props := List (String × Source NodeId)

namespace Build

def store : Build Store := return (← get).store

def setStore (s : Store) : Build Unit := modify fun w => { w with store := s }

def notify (notice : Notice) : Build Unit :=
  modify fun w => { w with notices := w.notices ++ [notice] }

def add (i : Instance) : Build NodeId := do
  let (id, s) := (← store).add i
  setStore s
  return id

def setInput (id : NodeId) (name : String) (source : Source NodeId) : Build Unit := do
  setStore (← (← store).setInput id name source)

/-- An edge to the first output of an instance. -/
def primaryEdge (id : NodeId) : Build (Source NodeId) := return (← store).primaryEdge id

end Build

namespace Node

/-- The template with its inputs given other sources; the first name that is no input fails. -/
def withProps (t : Template) : Props → Except NodeError Template
  | [] => .ok t
  | (name, source) :: rest =>
    match t.inputs.get? name with
    | none => .error (.unknownProperty t.name name)
    | some port => (t.input name (port.wired source)).withProps rest

/-- Checks the ports in order. -/
def check (s : Store) (t : Template) : Except NodeError Unit :=
  t.inputs.entries.forM fun (name, port) =>
    (port.validate s.design).mapError (.fault t.name name)

/-- An instance of the template as it is, unchecked. -/
def instantiate (t : Template) : Build NodeId := Build.add ⟨t, none⟩

/-- A checked instance of the template with properties. -/
def instantiateWith (t : Template) (props : Props) : Build NodeId := do
  let t ← t.withProps props
  t.check (← Build.store)
  t.instantiate

end Node

end ShaderGraph
