/-!
# Kinds of values

The kinds that ports and outputs declare. A colour is carried like a vector of three components,
and a single number can be widened to any other kind.
-/

namespace ShaderGraph

inductive Kind where
  | float
  | vector2
  | vector3
  | vector4
  | color
deriving DecidableEq, Repr, Inhabited

namespace Kind

def all : List Kind := [.float, .vector2, .vector3, .vector4, .color]

/-- The word for a kind in messages. -/
def word : Kind → String
  | .float => "float"
  | .vector2 => "vec2"
  | .vector3 => "vec3"
  | .vector4 => "vec4"
  | .color => "color"

/-- The type that carries a kind in shader code. -/
def type : Kind → String
  | .float => "float"
  | .vector2 => "vec2"
  | .vector3 => "vec3"
  | .vector4 => "vec4"
  | .color => "vec3"

def components : Kind → Nat
  | .float => 1
  | .vector2 => 2
  | .vector3 => 3
  | .vector4 => 4
  | .color => 3

/-- The constant that a declaration without an expression starts with. -/
def zero : Kind → String
  | .float => "0.0"
  | kind => kind.type ++ "(0.0)"

/-- Whether a port of this kind takes a value of kind `source`: the same kind, a colour for a
vector of three components or the other way round, or a single number where it may be widened. -/
def accepts (kind source : Kind) (broadcast : Bool) : Bool :=
  match kind, source with
  | .color, .vector3 | .vector3, .color => true
  | .float, .float => true
  | _, .float => broadcast
  | _, _ => kind = source

end Kind

end ShaderGraph
