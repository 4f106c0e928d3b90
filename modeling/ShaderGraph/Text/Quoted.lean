import ShaderGraph.Text.Visible

/-!
# Quoted texts

Texts in double quotes with the escapes of messages and settings files. What is not visible by
itself is written by its code point.
-/

namespace ShaderGraph

/-- One character inside quotes; a single quote is escaped only if `single` says so. -/
def escapeChar (single : Bool) (c : Char) : List Char :=
  if c = '"' ∨ c = '\\' then ['\\', c]
  else if c = '\'' then (if single then ['\\', c] else [c])
  else if c = '\n' then ['\\', 'n']
  else if c = '\t' then ['\\', 't']
  else if c = '\r' then ['\\', 'r']
  else if c = '\x00' then ['\\', '0']
  else if isVisible c then [c]
  else '\\' :: 'u' :: '{' :: (Nat.toDigits 16 c.toNat ++ ['}'])

def quoted (single : Bool) (s : String) : String :=
  String.ofList ('"' :: (s.toList.flatMap (escapeChar single) ++ ['"']))

end ShaderGraph
