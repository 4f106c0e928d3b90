import ShaderGraph.Kind
import ShaderGraph.Number.Layout

/-!
# Literal values

Values that a port can hold as they are, and their texts in shader code. Every number is written
with a point or an exponent, so that it is read as a float.
-/

namespace ShaderGraph

structure Rgb where
  red : Single
  green : Single
  blue : Single
deriving DecidableEq, Inhabited

namespace Rgb

/-- The colour whose three channels are the three lowest bytes of a number, red highest. -/
def ofHex (n : Nat) : Rgb :=
  let channel (n : Nat) : Single := .ofQuotient false (n % 256) 255
  ⟨channel (n / 65536), channel (n / 256), channel n⟩

def splat (x : Single) : Rgb := ⟨x, x, x⟩

end Rgb

inductive Value where
  | float (x : Single)
  | vector2 (x y : Single)
  | vector3 (x y z : Single)
  | vector4 (x y z w : Single)
  | color (rgb : Rgb)
deriving DecidableEq

namespace Value

def kind : Value → Kind
  | .float .. => .float
  | .vector2 .. => .vector2
  | .vector3 .. => .vector3
  | .vector4 .. => .vector4
  | .color .. => .color

def components : Value → List Single
  | .float x => [x]
  | .vector2 x y => [x, y]
  | .vector3 x y z => [x, y, z]
  | .vector4 x y z w => [x, y, z, w]
  | .color c => [c.red, c.green, c.blue]

theorem length_components (v : Value) : v.components.length = v.kind.components := by
  cases v <;> rfl

def float? : Value → Option Single
  | .float x => some x
  | _ => none

/-- Shader code has no literal for what is not a finite number. -/
def isFinite (v : Value) : Bool := v.components.all Binary.isFinite

end Value

namespace Glsl

def floatLiteral (x : Single) : String := Layout.shown.write x

def vectorLiteral (type : String) (components : List Single) : String :=
  type ++ "(" ++ ", ".intercalate (components.map floatLiteral) ++ ")"

/-- Widens the expression of a single number to the type of another kind. -/
def widen (expr : String) (source target : Kind) : String :=
  if source = .float ∧ target ≠ .float then target.type ++ "(" ++ expr ++ ")" else expr

end Glsl

def Value.toGlsl (v : Value) : String :=
  match v with
  | .float x => Glsl.floatLiteral x
  | _ => Glsl.vectorLiteral v.kind.type v.components

end ShaderGraph
