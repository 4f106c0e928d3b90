import ShaderGraph.Text.Blank

/-!
# Lines of a block

Code inside a block is written one line after another, each without the blanks at its ends and
with the block's own indent in front. Lines without anything else are left out.
-/

namespace ShaderGraph.Glsl

/-- The lines of a text, cut at every newline. -/
def lines : List Char → List (List Char)
  | [] => [[]]
  | c :: rest =>
    if c = '\n' then [] :: lines rest
    else match lines rest with
      | [] => [[c]]
      | line :: more => (c :: line) :: more

def indented (code indent : String) : List String :=
  ((lines code.toList).map trimBlanks).filter (· ≠ []) |>.map fun line =>
    indent ++ String.ofList line

end ShaderGraph.Glsl
