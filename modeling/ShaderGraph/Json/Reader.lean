import ShaderGraph.Json.Basic
import ShaderGraph.Text.Parse

/-!
# Reading JSON

`Json.ofText?` reads a text that holds one value and blanks. Numbers keep their texts; whether a
number fits is for whoever takes it out.
-/

namespace ShaderGraph.Json

open Parse

def isBlank (c : Char) : Bool := c == ' ' || c == '\t' || c == '\n' || c == '\r'

def skipBlanks : Parse Unit := discard (span isBlank)

/-- A number that four hexadecimal digits stand for. -/
def unit : Parse Nat := do
  let digit : Parse Nat := do (hexDigit? (← next)).getDM failure
  let a ← digit
  let b ← digit
  let c ← digit
  let d ← digit
  return ((a * 16 + b) * 16 + c) * 16 + d

/-- The code point or half of a pair that stands after a backslash. -/
def escape : Parse Nat := do
  match ← next with
  | '"' => return '"'.toNat
  | '\\' => return '\\'.toNat
  | '/' => return '/'.toNat
  | 'b' => return 0x08
  | 'f' => return 0x0C
  | 'n' => return 0x0A
  | 'r' => return 0x0D
  | 't' => return 0x09
  | 'u' => unit
  | _ => failure

/-- The code points and halves of pairs up to the closing quote. The number bounds the characters
that are read. -/
def units : Nat → Parse (List Nat)
  | 0 => failure
  | bound + 1 => do
    match ← next with
    | '"' => return []
    | '\\' =>
      let code ← escape
      return code :: (← units bound)
    | c =>
      if c.toNat < 0x20 then failure
      return c.toNat :: (← units bound)

def isHigh (n : Nat) : Bool := 0xD800 ≤ n && n ≤ 0xDBFF
def isLow (n : Nat) : Bool := 0xDC00 ≤ n && n ≤ 0xDFFF

/-- The characters that code points and pairs stand for; a half by itself is none. -/
def joinPairs : List Nat → Option (List Char)
  | [] => some []
  | high :: low :: rest =>
    if isHigh high && isLow low then
      (joinPairs rest).map (Char.ofNat (0x10000 + (high - 0xD800) * 0x400 + (low - 0xDC00)) :: ·)
    else if isHigh high || isLow high then none
    else (joinPairs (low :: rest)).map (Char.ofNat high :: ·)
  | [code] => if isHigh code || isLow code then none else some [Char.ofNat code]

/-- The rest of a string after its opening quote. -/
def stringRest (bound : Nat) : Parse (Option String) := do
  return (joinPairs (← units bound)).map String.ofList

def digits1 : Parse (List Char) := do
  match ← span Char.isDigit with
  | [] => failure
  | ds => return ds

/-- A sign, digits without a needless zero in front, a fraction and an exponent; the last two may
be missing. -/
def numeral : Parse (List Char) := do
  let sign ← span (· == '-')
  if 1 < sign.length then failure
  let whole ← digits1
  if whole.head? = some '0' ∧ 1 < whole.length then failure
  let fraction ← match ← peek with
    | some '.' => do char '.'; pure ('.' :: (← digits1))
    | _ => pure []
  let exponent ← match ← peek with
    | some 'e' | some 'E' => do
      let mark ← next
      let sign ← span fun c => c == '+' || c == '-'
      if 1 < sign.length then failure
      pure (mark :: (sign ++ (← digits1)))
    | _ => pure []
  return sign ++ whole ++ fraction ++ exponent

/-- Items between an opening bracket, which was read, and the closing one. -/
def items {α : Type} (item : Parse α) (closing : Char) : Nat → Parse (List α)
  | 0 => failure
  | bound + 1 => do
    let a ← item
    skipBlanks
    match ← next with
    | ',' => return a :: (← items item closing bound)
    | c => if c = closing then return [a] else failure

def itemsOrNone {α : Type} (item : Parse α) (closing : Char) (bound : Nat) : Parse (List α) := do
  skipBlanks
  if (← peek) = some closing then
    char closing
    return []
  items item closing bound

/-- A field whose value `value` reads. -/
def field (value : Parse Json) (bound : Nat) : Parse (Option String × Json) := do
  skipBlanks
  char '"'
  let name ← stringRest bound
  skipBlanks
  char ':'
  return (name, ← value)

/-- A value after blanks. The number bounds its depth and its length. -/
def value : Nat → Parse Json
  | 0 => failure
  | bound + 1 => do
    skipBlanks
    match ← peek with
    | some '"' => do char '"'; return .string (← stringRest bound)
    | some '[' => do char '['; return .array (← itemsOrNone (value bound) ']' bound)
    | some '{' => do
      char '{'
      return .object (← itemsOrNone (field (value bound) bound) '}' bound)
    | some 'n' => do text "null"; return .null
    | some 't' => do text "true"; return .bool true
    | some 'f' => do text "false"; return .bool false
    | _ => return .number (String.ofList (← numeral))

def ofText? (s : String) : Option Json :=
  let whole : Parse Json := do
    let v ← value (s.length + 1)
    skipBlanks
    return v
  whole.run? s.toList

end ShaderGraph.Json
