/-!
# Stages and slots

A shader has a vertex and a fragment stage. A slot is a variable of the pipeline that one of them
assigns, through a template in which a placeholder stands for the assigned value.
-/

namespace ShaderGraph

inductive Stage where
  | vertex
  | fragment
deriving DecidableEq, Repr

namespace Stage

/-- Both stages in the order in which they are emitted. -/
def all : List Stage := [.vertex, .fragment]

def word : Stage → String
  | .vertex => "vertex"
  | .fragment => "fragment"

end Stage

structure Slot where
  /-- The variable that is assigned. -/
  target : String
  stage : Stage
  /-- The assigned expression with placeholders for the value. -/
  template : String
deriving DecidableEq

namespace Slot

def placeholder : String := "\x7bvalue\x7d"

/-- A slot that takes the value as it is. -/
def plain (stage : Stage) (target : String) : Slot := ⟨target, stage, placeholder⟩

/-- The text with every placeholder replaced, from left to right. -/
def fillIn (value : List Char) : List Char → List Char
  | '{' :: 'v' :: 'a' :: 'l' :: 'u' :: 'e' :: '}' :: rest => value ++ fillIn value rest
  | c :: rest => c :: fillIn value rest
  | [] => []

/-- The expression that is assigned for a value. -/
def expression (slot : Slot) (value : String) : String :=
  String.ofList (fillIn value.toList slot.template.toList)

def assignment (slot : Slot) (value : String) : String :=
  slot.target ++ " = " ++ slot.expression value ++ ";"

end Slot

end ShaderGraph
