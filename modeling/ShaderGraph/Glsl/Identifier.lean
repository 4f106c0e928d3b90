/-!
# Identifiers

`stem` makes a word in capitalised style out of any name. It has letters and digits only, so a stem
followed by an underscore and a number can be told apart from every other such name.
-/

namespace ShaderGraph.Glsl

def isWordStart (c : Char) : Bool := c.isAlpha || c == '_'

def isWordChar (c : Char) : Bool := c.isAlphanum || c == '_'

/-- The letters and digits of a text, the first one of each run made a capital; `start` says
whether the text begins at the start of a run. -/
def capitalized (start : Bool) : List Char → List Char
  | [] => []
  | c :: rest =>
    if c.isAlphanum then (if start then c.toUpper else c) :: capitalized false rest
    else capitalized true rest

def stemChars (name : List Char) : List Char :=
  match capitalized true name with
  | [] => "Node".toList
  | c :: rest => if c.isDigit then "Node".toList ++ c :: rest else c :: rest

/-- Two runs `scale with` become `ScaleWith`; what would start with a digit or be empty gets `Node`
in front. -/
def stem (name : String) : String := String.ofList (stemChars name.toList)

end ShaderGraph.Glsl
