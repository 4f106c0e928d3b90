import ShaderGraph.Graph.Registry

/-!
# Input nodes

Nodes that bring values into a graph: constants, time, and what the pipeline knows of a vertex.
-/

namespace ShaderGraph.Library

def timeTemplate : Template :=
  Node.named "Time"
    |>.output "value" .float "u_time"
    |>.clock (.ofUniform "time")

/-- Time that every node with the same source shares. -/
def sharedTimeTemplate (source : String) : Template :=
  Node.named "Time"
    |>.output "value" .float "u_time"
    |>.clock { Clock.ofUniform "time" with source := .shared source }

def floatTemplate : Template :=
  Node.named "Float"
    |>.input "value" ((Port.ofKind .float).wired (.literal (.float .zero)))
    |>.output "value" .float "in_value"

def vector3Template : Template :=
  Node.named "Vector3"
    |>.input "value" ((Port.ofKind .vector3).wired (.literal (.vector3 .zero .zero .zero)))
    |>.output "value" .vector3 "in_value"

def colorTemplate : Template :=
  Node.named "Color"
    |>.input "value" ((Port.ofKind .color).wired (.literal (.color (.splat (.ofNat 1)))))
    |>.output "value" .color "in_value"

def geometryPositionTemplate : Template :=
  Node.named "Geometry Position" |>.output "value" .vector3 "position"

def geometryNormalTemplate : Template :=
  Node.named "Geometry Normal" |>.output "value" .vector3 "normal"

def worldPositionTemplate : Template :=
  Node.named "World Position"
    |>.output "value" .vector3 "(modelMatrix * vec4(position, 1.0)).xyz"
    |>.interpolated

def worldNormalTemplate : Template :=
  Node.named "World Normal"
    |>.output "value" .vector3 "normalize(mat3(modelMatrix) * normal)"
    |>.interpolated

def inputTypes : List NodeType :=
  [.ofTemplate "time" (pure timeTemplate),
    .ofTemplate "float" (pure floatTemplate),
    .ofTemplate "vec3" (pure vector3Template),
    .ofTemplate "color" (pure colorTemplate),
    .ofTemplate "geometry_position" (pure geometryPositionTemplate),
    .ofTemplate "geometry_normal" (pure geometryNormalTemplate),
    .ofTemplate "world_position" (pure worldPositionTemplate),
    .ofTemplate "world_normal" (pure worldNormalTemplate)]

end ShaderGraph.Library
