import ShaderGraph.Library.Masters
import ShaderGraph.Settings.Basic

/-!
# The demo material

An animated blob with a rim light. The position of a vertex runs through the animation stack, and
the diffuse colour through a stack that blends the base colour with the rim.
-/

namespace ShaderGraph.Material

open Library

def number (x : Single) : Source NodeId := .literal (.float x)

/-- A filter of the animation; `clock` is the name of the clock that all filters share. -/
def filter (settings : FilterSettings) (clock : Option String) : Build NodeId := do
  let (type, props) : NodeType × Props := match settings with
    | .squeeze frequency => (squeezeType, [("frequency", number frequency)])
    | .scale axis frequency => (scaleType axis, [("frequency", number frequency)])
    | .move axis frequency amplitude =>
      (moveType axis, [("frequency", number frequency), ("amplitude", number amplitude)])
  match clock with
  | none => type.make props
  | some name => do
    let time ← (sharedTimeTemplate name).instantiate
    type.make (props ++ [("time", ← Build.primaryEdge time)])

def animationStack (settings : AnimationSettings) : Build Stack := do
  let filters ← settings.filters.mapM fun f => filter f settings.sharedClock
  let position ← geometryPositionTemplate.instantiate
  let stack := Stack.named "Animation Stack"
    |>.input "origin" ((Port.ofKind .vector3).wired (← Build.primaryEdge position))
    |>.output "value" .vector3 "in_origin"
  return filters.foldl Stack.filter stack

def animationType (settings : AnimationSettings) : NodeType :=
  .ofStack "animation_stack" (animationStack settings)

def colorStack (settings : ColorSettings) : Build Stack := do
  let rim ← fresnelType.make [("power", number settings.fresnelPower)]
  let c := settings.highlight
  let highlight ← (multiplyType .vector3).make
    [("a", .literal (.vector3 c.red c.green c.blue)), ("b", ← Build.primaryEdge rim)]
  let blend ← mixType.make
    [("b", ← Build.primaryEdge highlight), ("amount", number settings.mixAmount)]
  return Stack.named "Color Stack"
    |>.input "color" (.ofKind .color)
    |>.output "value" .color "in_color"
    |>.filter blend

def colorType (settings : ColorSettings) : NodeType := .ofStack "color_stack" (colorStack settings)

/-- The master of the material. -/
def build (settings : Settings) : Build NodeId := do
  let base ← colorTemplate.instantiateWith
    [("value", .literal (.color settings.color.baseColor))]
  let position ← (animationType settings.animation).instantiate
  let diffuse ← (colorType settings.color).make [("color", ← Build.primaryEdge base)]
  customMaterialType.make
    [("position", ← Build.primaryEdge position), ("diffuse_color", ← Build.primaryEdge diffuse)]

end ShaderGraph.Material
