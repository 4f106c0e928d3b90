import ShaderGraph.Library.Inputs

/-!
# Arithmetic and shading nodes

The second input of a sum or a product may be a single number for each component of the first.
-/

namespace ShaderGraph.Library

def binaryTemplate (name : String) (kind : Kind) (operator : String) : Template :=
  Node.named name
    |>.input "a" (.ofKind kind)
    |>.input "b" { Port.ofKind kind with broadcast := decide (kind ≠ .float) }
    |>.output "value" kind s!"in_a {operator} in_b"

def addType (kind : Kind) : NodeType :=
  .ofTemplate "add" (pure (binaryTemplate "Add" kind "+"))

def multiplyType (kind : Kind) : NodeType :=
  .ofTemplate "multiply" (pure (binaryTemplate "Multiply" kind "*"))

/-- A blend from the first input to the second. -/
def mixTemplate : Template :=
  Node.named "Mix"
    |>.input "a" (.ofKind .vector3)
    |>.input "b" (.ofKind .vector3)
    |>.input "amount" ((Port.ofKind .float).wired (.literal (.float (.ofQuotient false 1 2))))
    |>.output "value" .vector3 "mix(in_a, in_b, in_amount)"
    |>.primary "a"

def mixType : NodeType := .ofTemplate "mix" (pure mixTemplate)

def fresnelBody : String :=
  "vec3 viewDirection = normalize(in_world_position - cameraPosition);\n" ++
  "float rim = pow(1.0 + dot(viewDirection, in_world_normal), in_power);\n" ++
  "out_value = clamp((in_bias + in_intensity * rim) * in_factor, 0.0, 1.0);"

/-- The factor of a rim that depends on the view, with position and normal of its own. -/
def fresnelTemplate : Build Template := do
  let position ← worldPositionTemplate.instantiate
  let normal ← worldNormalTemplate.instantiate
  let position ← Build.primaryEdge position
  let normal ← Build.primaryEdge normal
  let number (n : Nat) : Port NodeId := (Port.ofKind .float).wired (.literal (.float (.ofNat n)))
  return Node.named "Fresnel"
    |>.input "bias" (number 0)
    |>.input "intensity" (number 1)
    |>.input "power" (number 2)
    |>.input "factor" (number 1)
    |>.input "world_position" ((Port.ofKind .vector3).wired position)
    |>.input "world_normal" ((Port.ofKind .vector3).wired normal)
    |>.bodyOutput "value" .float
    |>.body .fragment fresnelBody

def fresnelType : NodeType := .ofTemplate "fresnel" fresnelTemplate

def mathTypes : List NodeType := [addType .vector3, multiplyType .vector3, mixType, fresnelType]

end ShaderGraph.Library
