import ShaderGraph.Glsl.Identifier
import ShaderGraph.Graph.Search
import ShaderGraph.Graph.Store

/-!
# Walks

A walk numbers the instances that a root reads, directly or through others. What it finds is a
diagram: the nodes with their identifiers, edges leading to numbers, and an order in which every
producer comes before its consumers. A diagram no longer depends on the ids of a store.
-/

namespace ShaderGraph

structure Entry where
  /-- The name in code, made of the display name and the number. -/
  ident : String
  node : Node Nat
deriving DecidableEq

structure Diagram where
  /-- The nodes by number; the root is the first. -/
  entries : List Entry
  /-- The numbers in dependency order. -/
  order : List Nat
deriving DecidableEq

instance : Inhabited Entry := ⟨⟨"", default⟩⟩

namespace Diagram

def entry (d : Diagram) (i : Nat) : Entry := d.entries.getD i default

def root (d : Diagram) : Entry := d.entry 0

def design (d : Diagram) (i : Nat) : Design := (d.entry i).node.design

end Diagram

def ident (name : String) (number : Nat) : String := s!"{Glsl.stem name}_{number}"

structure Walk where
  /-- The instances in the order of their numbers. -/
  ids : List NodeId
  diagram : Diagram

namespace Walk

variable (s : Store)

/-- The identifier of an instance among those found. -/
def identIn (found : List NodeId) (id : NodeId) : String :=
  ident (s.design id).name (found.idxOf id)

def entryIn (found : List NodeId) (id : NodeId) : Entry :=
  ⟨identIn s found id, (s.get id).toNode.map found.idxOf⟩

/-- The walk from a root, or the identifiers around a cycle. -/
def discover (root : NodeId) : Except (List String) Walk :=
  match Search.run (fun id => (s.get id).producers) (s.size + 1) root with
  | .error cycle => .error (cycle.path.map (identIn s cycle.found))
  | .ok search =>
    .ok ⟨search.found, search.found.map (entryIn s search.found),
      search.finished.map search.found.idxOf⟩

end Walk

end ShaderGraph
