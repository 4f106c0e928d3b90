import ShaderGraph.Ron.Lexeme

/-!
# What stands in brackets

Whether brackets hold fields, several items or one value is found out before any of it is read.
`namedNext` decides by the first name alone; `shape` looks for a comma between items, past nested
brackets and past the literals in which a bracket or a comma means nothing.
-/

namespace ShaderGraph.Ron

open Parse

variable {α : Type}

inductive Shape where
  | fields
  | items
  | one
deriving DecidableEq

/-- What `p` finds ahead; nothing is taken. -/
def ahead (p : Parse α) : Parse α := fun cs => (p cs).map fun (a, _) => (a, cs)

/-- Takes a name, if there is one, and says whether it did. -/
def tryName : Parse Bool := (do discard (name false); return true) <|> return false

/-- Whether what follows an opening bracket is a name with a colon. -/
def namedNext : Parse Bool := ahead do
  char '('
  skipBlanks
  if ← tryName then
    skipBlanks
    return (← peek) = some ':'
  return false

namespace Shape

/-- Takes a literal, if there is one; a literal that does not end is an error. -/
def pass (literal : Parse α) (isEndless : List Char → Bool) : Parse Unit := fun cs =>
  match literal cs with
  | some (_, rest) => some ((), rest)
  | none => if isEndless cs then none else some ((), cs)

/-- Takes the comma that comes next. A single value may have a comma after it. -/
def afterComma : Parse Shape := do
  char ','
  skipBlanks
  return if (← peek) = some ')' then .one else .items

/-- Looks for a comma or for the closing bracket, `nested` further brackets being open. The number
bounds the steps. -/
def search : Nat → Nat → Parse Shape
  | 0, _ => failure
  | bound + 1, nested => do
    skipBlanks
    pass character fun _ => false
    pass string isEndlessString
    pass byteString isEndlessByteString
    match ← peek with
    | some ',' =>
      if nested = 0 then afterComma
      else
        char ','
        search bound nested
    | some c =>
      char c
      if ['(', '[', '{'].contains c then search bound (nested + 1)
      else if [')', ']', '}'].contains c then
        match nested with
        | 0 => return .one
        | nested + 1 => search bound nested
      else search bound nested
    | none => failure

end Shape

/-- The shape of what follows in a pair of brackets. -/
def shape : Parse Shape := ahead do
  skipBlanks
  if (← peek) = some ')' then return .items
  if ← tryName then
    skipBlanks
    match ← peek with
    | some ':' => return .fields
    | some ',' => return ← Shape.afterComma
    | some ')' => return .one
    | _ => pure ()
  Shape.search ((← get).length + 1) 0

end ShaderGraph.Ron
