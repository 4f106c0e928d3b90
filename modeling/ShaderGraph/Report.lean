import ShaderGraph.Json.Codec
import ShaderGraph.Material

/-!
# Reports

A run compiles the demo material and simulates frames of equal length; its report holds both
sources and the uniforms after each frame.
-/

namespace ShaderGraph

/-- The uniforms after a frame. -/
structure Frame where
  /-- The number of the frame, from one. -/
  number : Nat
  /-- The seconds since the start. -/
  elapsed : Double
  values : Table Value
deriving DecidableEq

structure Report where
  vertex : String
  fragment : String
  frames : List Frame
deriving DecidableEq

inductive RunError where
  | node (error : NodeError)
  | compile (error : CompileError)
deriving DecidableEq

def RunError.message : RunError → String
  | .node e => "Failed to build demo graph: " ++ e.message
  | .compile e => "Failed to compile demo graph: " ++ e.message

namespace Report

/-- The next `count` frames after the frame `number`, at which `elapsed` seconds had passed. -/
def simulate (delta : Double) : Nat → Nat → Double → Uniforms → List Frame
  | 0, _, _, _ => []
  | count + 1, number, elapsed, uniforms =>
    let uniforms := uniforms.update delta
    let elapsed := elapsed + delta
    ⟨number + 1, elapsed, uniforms.values⟩ :: simulate delta count (number + 1) elapsed uniforms

/-- The shader of the material of some settings. -/
def shader (settings : Settings) : Except RunError Shader := do
  let (master, work) := (Material.build settings).run.run default
  let master ← master.mapError .node
  (work.store.compile master).mapError .compile

def run (settings : Settings) : Except RunError Report := do
  let shader ← shader settings
  return {
    vertex := shader.source .vertex
    fragment := shader.source .fragment
    frames := simulate settings.frameDelta settings.frames.toNat 0 .zero shader.uniforms }

def sourceText (stage : Stage) (source : String) : String :=
  s!"// ---- {stage.word} shader ----\n" ++ source ++ "\n"

def frameText (f : Frame) : String :=
  s!"// frame {f.number} (t = " ++ fixedText 4 f.elapsed ++ "s)\n" ++
    String.join (f.values.entries.map fun (name, v) => s!"//   {name} = {v.toGlsl}\n")

/-- The sources with the uniforms in comments after them. -/
def toGlsl (r : Report) : String :=
  sourceText .vertex r.vertex ++ sourceText .fragment r.fragment ++
    String.join (r.frames.map frameText)

def toJson (r : Report) : Json :=
  .ofFields [("vertex_source", .ofString r.vertex), ("fragment_source", .ofString r.fragment),
    ("frames", .array (r.frames.map fun f =>
      .ofFields [("frame", .ofNat f.number), ("elapsed", .ofDouble f.elapsed),
        ("values", .ofValues f.values)]))]

def render (r : Report) : OutputFormat → String
  | .glsl => r.toGlsl
  | .json => r.toJson.renderPretty ""

end Report

end ShaderGraph
