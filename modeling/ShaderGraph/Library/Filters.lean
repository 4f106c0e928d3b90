import ShaderGraph.Library.Inputs

/-!
# Filters over time

Filters of a stack that deform a position as time passes. Each has a clock of its own unless it is
given another source of time.
-/

namespace ShaderGraph

/-- The components that a filter works on. -/
inductive Axis where
  | x
  | y
  | z
  | all
deriving DecidableEq, Repr

/-- The components in code. -/
def Axis.swizzle : Axis → String
  | .x => "x"
  | .y => "y"
  | .z => "z"
  | .all => "xyz"

namespace Library

/-- The inputs and the output of every filter. -/
def timedTemplate (name : String) : Build Template := do
  let time ← timeTemplate.instantiate
  let time ← Build.primaryEdge time
  return Node.named name
    |>.input "a" (.ofKind .vector3)
    |>.input "frequency" ((Port.ofKind .float).wired (.literal (.float (.ofNat 1))))
    |>.input "time" ((Port.ofKind .float).wired time)
    |>.output "value" .vector3 "in_a"

def squeezeBody : String :=
  "out_value.x *= (1.0 + sin(in_time * in_frequency + position.y * 0.3 + position.x * 0.3) * 0.2);"

/-- Narrows a shape along its first axis in a wave that runs over the surface. -/
def squeezeType : NodeType :=
  .ofTemplate "squeeze_with_time" do
    return (← timedTemplate "Squeeze with Time").body .vertex squeezeBody

/-- Pulses the size along an axis. -/
def scaleType (axis : Axis) : NodeType :=
  .ofTemplate "scale_with_time" do
    return (← timedTemplate "Scale with Time").body .vertex
      s!"out_value.{axis.swizzle} *= (1.0 + sin(in_time * in_frequency) * 0.5);"

/-- Sways back and forth along an axis. -/
def moveType (axis : Axis) : NodeType :=
  .ofTemplate "move_with_time" do
    return (← timedTemplate "Move with Time")
      |>.input "amplitude" ((Port.ofKind .float).wired (.literal (.float (.ofNat 1))))
      |>.body .vertex s!"out_value.{axis.swizzle} += sin(in_time * in_frequency) * in_amplitude;"

def filterTypes : List NodeType := [squeezeType, scaleType .all, moveType .all]

end Library

end ShaderGraph
