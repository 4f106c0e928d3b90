import ShaderGraph.Graph.Stack

/-!
# Node types

A node type builds an instance from properties. A registry holds types under their ids, in the
order in which the ids were registered first.
-/

namespace ShaderGraph

structure NodeType where
  id : String
  make : Props → Build NodeId

namespace NodeType

/-- Builds the template again for every instance. -/
def ofTemplate (id : String) (template : Build Template) : NodeType where
  id := id
  make props := do (← template).instantiateWith props

/-- Builds the stack and its filters again for every instance. -/
def ofStack (id : String) (stack : Build Stack) : NodeType where
  id := id
  make props := do (← stack).assemble props

def instantiate (t : NodeType) : Build NodeId := t.make []

end NodeType

structure Registry where
  types : Table NodeType

namespace Registry

def empty : Registry := ⟨.empty⟩

def register (r : Registry) (type : NodeType) : Registry := ⟨r.types.insert type.id type⟩

def ofList (types : List NodeType) : Registry := types.foldl register empty

def ids (r : Registry) : List String := r.types.keys

def create (r : Registry) (id : String) (props : Props) : Build NodeId :=
  match r.types.get? id with
  | none => throw (.unknownType id)
  | some type => type.make props

end Registry

end ShaderGraph
