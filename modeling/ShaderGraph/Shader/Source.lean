import ShaderGraph.Glsl.Block

/-!
# Sources of stages

A stage is emitted as data: the uniforms and varyings that it declares, the headers of its nodes,
and the statements of its main function. `StageSource.render` writes the text; `render_eq` tells the
lines of the statements from what stands in front of them.
-/

namespace ShaderGraph

inductive Statement where
  | comment (text : String)
  | declare (type name init : String)
  /-- Lines in a scope of their own. -/
  | block (code : String)
  | assign (target expr : String)
deriving DecidableEq

structure Varying where
  type : String
  name : String
deriving DecidableEq

structure StageSource where
  uniforms : List String
  varyings : List Varying
  /-- Top-level texts, each once. -/
  headers : List String
  statements : List Statement
deriving DecidableEq

def indent : String := "    "

namespace Statement

/-- The lines of a statement inside the main function. -/
def lines : Statement → List String
  | .comment text => ["// " ++ text]
  | .declare type name init => [type ++ " " ++ name ++ " = " ++ init ++ ";"]
  | .block code => "\x7b" :: Glsl.indented code indent ++ ["\x7d"]
  | .assign target expr => [target ++ " = " ++ expr ++ ";"]

end Statement

namespace StageSource

def uniformLine (name : String) : String := "uniform float " ++ name ++ ";"

def varyingLine (v : Varying) : String := "varying " ++ v.type ++ " " ++ v.name ++ ";"

/-- Lines and an empty line after them, or nothing. -/
def renderSection (lines : List String) : String :=
  if lines.isEmpty then "" else "\n".intercalate lines ++ "\n\n"

def render (s : StageSource) : String :=
  renderSection (s.uniforms.map uniformLine) ++
    renderSection (s.varyings.map varyingLine) ++
    String.join (s.headers.map (· ++ "\n\n")) ++
    "void main() \x7b\n" ++
    String.join ((s.statements.flatMap Statement.lines).map fun line => indent ++ line ++ "\n") ++
    "\x7d\n"

/-- Everything in front of the statements of the main function. -/
def opening (s : StageSource) : String :=
  renderSection (s.uniforms.map uniformLine) ++ renderSection (s.varyings.map varyingLine) ++
    String.join (s.headers.map (· ++ "\n\n")) ++ "void main() \x7b\n"

/-- The lines of statements as they stand in the main function. -/
def written (l : List Statement) : String :=
  String.join ((l.flatMap Statement.lines).map fun line => indent ++ line ++ "\n")

theorem written_append (l l' : List Statement) : written (l ++ l') = written l ++ written l' := by
  rw [written, List.flatMap_append, List.map_append, String.join_append]
  rfl

theorem render_eq (s : StageSource) : s.render = s.opening ++ written s.statements ++ "\x7d\n" :=
  rfl

end StageSource

end ShaderGraph
