import ShaderGraph.Number.Decimal

/-!
# Clocks

A clock drives a uniform of its node from accumulated time. A clock keeps the time of its own
instance or shares it with every clock of the same source name.
-/

namespace ShaderGraph

inductive ClockSource where
  | own
  | shared (name : String)
deriving DecidableEq

structure Clock where
  /-- The name after `u_` under which the node's code reads the uniform. -/
  uniform : String
  source : ClockSource
  /-- Factor on the accumulated time. -/
  scale : Single
deriving DecidableEq

namespace Clock

/-- A clock of its own instance at the speed of time. -/
def ofUniform (uniform : String) : Clock := ⟨uniform, .own, .ofNat 1⟩

end Clock

end ShaderGraph
