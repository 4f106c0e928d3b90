import ShaderGraph.Graph.Design
import ShaderGraph.Json.Reader
import ShaderGraph.Shader.Compile

/-!
# Parts of graphs in JSON

Kinds and stages are written as strings, values as an object whose only field names the kind, and
records as objects. Records are also read from a list of their fields in order, and fields that a
record does not have are passed over.
-/

namespace ShaderGraph.Json

/-- A number in single precision; a number beyond its range does not count. A whole number whose
magnitude fits in 64 bits, but not with its minus, passes through double precision. -/
def single? : Json → Option Single
  | .number text => do
    let d ← Decimal.ofChars? text.toList
    let whole := text.toList.tail.all Char.isDigit
    let x : Single :=
      if whole && d.negative && UInt64.size / 2 < d.digits && d.digits < UInt64.size then
        (d.toBinary : Double).convert
      else d.toBinary
    if x.isFinite then some x else none
  | _ => none

def string? : Json → Option String
  | .string text => text
  | _ => none

/-- The values of the named fields, each present once, from an object or from a list. -/
def fields? (names : List String) : Json → Option (List Json)
  | .array items => if items.length = names.length then some items else none
  | .object fields => do
    let known ← fields.mapM Prod.fst
    if names.all fun name => known.count name = 1 then
      names.mapM fun name => (fields.find? (·.1 = some name)).map Prod.snd
    else none
  | _ => none

/-- The name of a variant and its content, which a bare name does not have. -/
def variant? : Json → Option (String × Option Json)
  | .string (some name) => some (name, none)
  | .object [(some name, content)] => some (name, some content)
  | _ => none

/-- One of some names, alone or with an empty content. -/
def name? {α : Type} (names : List (String × α)) (j : Json) : Option α := do
  let (name, content) ← variant? j
  match content with
  | none | some .null => (names.find? (·.1 = name)).map Prod.snd
  | _ => none

def kindName : Kind → String
  | .float => "Float"
  | .vector2 => "Vector2"
  | .vector3 => "Vector3"
  | .vector4 => "Vector4"
  | .color => "Color"

def ofKind (k : Kind) : Json := ofString (kindName k)

def kind? : Json → Option Kind := name? (Kind.all.map fun k => (kindName k, k))

def stageName : Stage → String
  | .vertex => "Vertex"
  | .fragment => "Fragment"

def ofStage (s : Stage) : Json := ofString (stageName s)

def stage? : Json → Option Stage := name? (Stage.all.map fun s => (stageName s, s))

def singles? : Json → Option (List Single)
  | .array items => items.mapM single?
  | _ => none

def ofRgb (c : Rgb) : Json := .array [ofSingle c.red, ofSingle c.green, ofSingle c.blue]

def rgb? (j : Json) : Option Rgb := do
  match ← singles? j with
  | [r, g, b] => some ⟨r, g, b⟩
  | _ => none

def ofValue (v : Value) : Json :=
  let content := match v with
    | .float x => ofSingle x
    | _ => .array (v.components.map ofSingle)
  ofFields [(kindName v.kind, content)]

def value? (j : Json) : Option Value := do
  let (name, some content) ← variant? j | none
  match ← (Kind.all.find? fun k => kindName k = name) with
  | .float => return .float (← single? content)
  | .color => return .color (← rgb? content)
  | kind =>
    match kind, ← singles? content with
    | .vector2, [x, y] => some (.vector2 x y)
    | .vector3, [x, y, z] => some (.vector3 x y z)
    | .vector4, [x, y, z, w] => some (.vector4 x y z w)
    | _, _ => none

def ofSlot (s : Slot) : Json :=
  ofFields [("target", ofString s.target), ("stage", ofStage s.stage),
    ("template", ofString s.template)]

def slot? (j : Json) : Option Slot := do
  match ← fields? ["target", "stage", "template"] j with
  | [target, stage, template] =>
    return ⟨← string? target, ← stage? stage, ← string? template⟩
  | _ => none

def ofClockSource : ClockSource → Json
  | .own => ofString "Instance"
  | .shared name => ofFields [("Shared", ofString name)]

def clockSource? (j : Json) : Option ClockSource := do
  match ← variant? j with
  | ("Instance", none) | ("Instance", some .null) => some .own
  | ("Shared", some content) => return .shared (← string? content)
  | _ => none

def ofClock (c : Clock) : Json :=
  ofFields [("uniform", ofString c.uniform), ("source", ofClockSource c.source),
    ("scale", ofSingle c.scale)]

def clock? (j : Json) : Option Clock := do
  match ← fields? ["uniform", "source", "scale"] j with
  | [uniform, source, scale] =>
    return ⟨← string? uniform, ← clockSource? source, ← single? scale⟩
  | _ => none

def ofValues (values : Table Value) : Json :=
  ofFields (values.entries.map fun (name, v) => (name, ofValue v))

def ofShader (s : Shader) : Json :=
  ofFields [("vertex_source", ofString (s.source .vertex)),
    ("fragment_source", ofString (s.source .fragment)),
    ("bound_values", ofValues s.uniforms.values)]

end ShaderGraph.Json
