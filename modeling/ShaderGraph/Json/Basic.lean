import ShaderGraph.Number.Layout

/-!
# JSON values

A value keeps the texts of its numbers and the order of its fields. `Json.render` writes it without
blanks, `Json.renderPretty` one item to a line.
-/

namespace ShaderGraph

inductive Json where
  | null
  | bool (b : Bool)
  | number (text : String)
  /-- No text if an escape names half of a character. -/
  | string (text : Option String)
  | array (items : List Json)
  | object (fields : List (Option String × Json))

namespace Json

/-- How floats are written whose plain notation goes from a power of ten to another; what is no
finite number is written as nothing. -/
def layout (least greatest : Int) : Layout where
  plain := some (least, greatest)
  pointed := true
  plus := true
  tie := .even
  infinite _ := "null"
  nan _ := "null"

def ofSingle (x : Single) : Json := .number ((layout (-6) 12).write x)

def ofDouble (x : Double) : Json := .number ((layout (-5) 15).write x)

def ofNat (n : Nat) : Json := .number (String.ofList (Nat.toDigits 10 n))

def ofString (s : String) : Json := .string (some s)

def ofFields (fields : List (String × Json)) : Json :=
  .object (fields.map fun (name, value) => (some name, value))

def escapeChar (c : Char) : List Char :=
  if c = '"' ∨ c = '\\' then ['\\', c]
  else if c = '\x08' then ['\\', 'b']
  else if c = '\t' then ['\\', 't']
  else if c = '\n' then ['\\', 'n']
  else if c = '\x0c' then ['\\', 'f']
  else if c = '\r' then ['\\', 'r']
  else if c.toNat < 0x20 then
    '\\' :: 'u' :: '0' :: '0' :: [Nat.digitChar (c.toNat / 16), Nat.digitChar (c.toNat % 16)]
  else [c]

def renderString (s : String) : String :=
  String.ofList ('"' :: (s.toList.flatMap escapeChar ++ ['"']))

mutual

def render : Json → String
  | .null => "null"
  | .bool b => if b then "true" else "false"
  | .number text => text
  | .string text => renderString (text.getD "")
  | .array items => "[" ++ ",".intercalate (renderItems items) ++ "]"
  | .object fields => "\x7b" ++ ",".intercalate (renderFields fields) ++ "\x7d"

def renderItems : List Json → List String
  | [] => []
  | item :: rest => render item :: renderItems rest

def renderFields : List (Option String × Json) → List String
  | [] => []
  | (name, value) :: rest =>
    (renderString (name.getD "") ++ ":" ++ render value) :: renderFields rest

end

/-- Brackets around indented lines, or nothing between them. -/
def bracketed (opening closing indent : String) (lines : List String) : String :=
  if lines.isEmpty then opening ++ closing
  else
    opening ++ "\n" ++ ",\n".intercalate (lines.map fun line => indent ++ "  " ++ line) ++
      "\n" ++ indent ++ closing

mutual

def renderPretty (indent : String) : Json → String
  | .array items => bracketed "[" "]" indent (renderPrettyItems (indent ++ "  ") items)
  | .object fields => bracketed "\x7b" "\x7d" indent (renderPrettyFields (indent ++ "  ") fields)
  | .null => "null"
  | .bool b => if b then "true" else "false"
  | .number text => text
  | .string text => renderString (text.getD "")

def renderPrettyItems (indent : String) : List Json → List String
  | [] => []
  | item :: rest => renderPretty indent item :: renderPrettyItems indent rest

def renderPrettyFields (indent : String) : List (Option String × Json) → List String
  | [] => []
  | (name, value) :: rest =>
    (renderString (name.getD "") ++ ": " ++ renderPretty indent value) ::
      renderPrettyFields indent rest

end

end Json

end ShaderGraph
