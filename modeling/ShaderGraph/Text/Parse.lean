/-!
# Reading texts

A reader takes characters from the front of a text and fails or gives a value and what is left.
-/

namespace ShaderGraph

abbrev Parse := StateT (List Char) Option

namespace Parse

variable {α : Type}

def peek : Parse (Option Char) := return (← get).head?

/-- Takes any character. -/
def next : Parse Char := fun
  | c :: rest => some (c, rest)
  | [] => none

/-- Takes one character, which must satisfy `p`. -/
def satisfy (p : Char → Bool) : Parse Char := do
  let c ← next
  if p c then return c else failure

def char (c : Char) : Parse Unit := discard (satisfy (· == c))

/-- Takes the longest run of characters that satisfy `p`. -/
def span (p : Char → Bool) : Parse (List Char) := fun cs => some (cs.takeWhile p, cs.dropWhile p)

/-- Takes a text if it comes next, and says whether it did. -/
def tryText (text : String) : Parse Bool := fun cs =>
  if text.toList.isPrefixOf cs then some (true, cs.drop text.length) else some (false, cs)

def text (s : String) : Parse Unit := do
  if ← tryText s then return else failure

/-- The value of the whole text. -/
def run? (p : Parse α) (cs : List Char) : Option α :=
  match p cs with
  | some (a, []) => some a
  | _ => none

end Parse

/-- The number that a hexadecimal digit stands for. -/
def hexDigit? (c : Char) : Option Nat :=
  if c.isDigit then some (c.toNat - '0'.toNat)
  else if 'a' ≤ c ∧ c ≤ 'f' then some (c.toNat - 'a'.toNat + 10)
  else if 'A' ≤ c ∧ c ≤ 'F' then some (c.toNat - 'A'.toNat + 10)
  else none

end ShaderGraph
