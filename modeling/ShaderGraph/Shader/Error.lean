import ShaderGraph.Graph.Port
import ShaderGraph.Text.Quoted

/-!
# Errors of compilation
-/

namespace ShaderGraph

inductive CompileError where
  | rootNotMaster (node : String)
  /-- The identifiers around a cycle, first and last the same. -/
  | graphCycle (path : List String)
  | unresolvedPort (node port : String) (stage : Option Stage)
  | fault (node port : String) (stage : Option Stage) (fault : Fault)
  | duplicateSlotWrite (slot first second : String)
deriving DecidableEq

namespace CompileError

def inStage : Option Stage → String
  | none => ""
  | some stage => s!" in {stage.word} stage"

def message : CompileError → String
  | .rootNotMaster node => s!"Root node `{node}` is not a master node"
  | .graphCycle path => "Graph contains a cycle: " ++ " -> ".intercalate path
  | .unresolvedPort node port stage => s!"Unresolved port {node}.{port}{inStage stage}"
  | .fault node port stage .nonFinite => s!"Non-finite literal at {node}.{port}{inStage stage}"
  | .fault node port stage (.mismatch expected found) =>
    s!"Type mismatch at {node}.{port}{inStage stage}: " ++
      s!"expected {expected.word}, found {found.word}"
  | .fault node port _ (.noOutput producer) =>
    s!"{node}.{port}: `{producer}` has no output " ++ quoted false ""
  | .fault node port _ (.unknownOutput producer output) =>
    s!"{node}.{port}: `{producer}` has no output " ++ quoted false output
  | .duplicateSlotWrite slot first second =>
    s!"Slot `{slot}` is written by both `{first}` and `{second}`"

end CompileError

end ShaderGraph
