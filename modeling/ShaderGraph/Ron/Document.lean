import ShaderGraph.Number.Layout
import ShaderGraph.Text.Quoted

/-!
# Writing object notation

A document is a tree of named records, lists, tuples and plain texts. Records and lists have one
item to a line, each followed by a comma; tuples stay on their line.
-/

namespace ShaderGraph.Ron

inductive Document where
  | plain (text : String)
  | record (name : String) (fields : List (String × Document))
  | list (items : List Document)
  | tuple (items : List Document)
  | some (item : Document)

namespace Document

/-- Floats in documents: never with an exponent, always with a point. -/
def layout : Layout where
  plain := none
  pointed := true
  plus := false
  tie := .up
  infinite s := if s then "-inf" else "inf"
  nan s := if s then "-NaN" else "NaN"

def ofBinary {f : Format} (x : Binary f) : Document := .plain (layout.write x)

def ofNat (n : Nat) : Document := .plain (String.ofList (Nat.toDigits 10 n))

def ofString (s : String) : Document := .plain (quoted true s)

def ofOption : Option Document → Document
  | none => .plain "None"
  | .some d => .some d

/-- Lines between brackets at an indent, or the brackets alone. -/
def bracketed (opening closing indent : String) (lines : List String) : String :=
  if lines.isEmpty then opening ++ closing
  else
    opening ++ "\n" ++ String.join (lines.map fun line => indent ++ "    " ++ line ++ ",\n") ++
      indent ++ closing

mutual

def render (indent : String) : Document → String
  | .plain text => text
  | .record name fields =>
    name ++ bracketed "(" ")" indent (renderFields (indent ++ "    ") fields)
  | .list items => bracketed "[" "]" indent (renderItems (indent ++ "    ") items)
  | .tuple items => "(" ++ ", ".intercalate (renderItems indent items) ++ ")"
  | .some item => "Some(" ++ render indent item ++ ")"

def renderItems (indent : String) : List Document → List String
  | [] => []
  | item :: rest => render indent item :: renderItems indent rest

def renderFields (indent : String) : List (String × Document) → List String
  | [] => []
  | (name, item) :: rest =>
    (name ++ ": " ++ render indent item) :: renderFields indent rest

end

end Document

end ShaderGraph.Ron
