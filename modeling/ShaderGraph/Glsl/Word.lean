import ShaderGraph.Glsl.Identifier
import ShaderGraph.Text.Blank

/-!
# Words of shader code

`scan` cuts code into words and the text between them. Comments, numbers and member names are not
words; they belong to the text between. `replaceWords` puts other texts in the place of words and
changes nothing else.
-/

namespace ShaderGraph.Glsl

inductive Piece where
  /-- Text that stays as it is. -/
  | other (text : List Char)
  /-- A name that stands for itself. -/
  | word (name : List Char)
deriving DecidableEq

def Piece.text : Piece → List Char
  | .other text => text
  | .word name => name

/-- A block comment after its opening, up to and including the first closing, and the rest. -/
def splitBlock : List Char → List Char × List Char
  | [] => ([], [])
  | '*' :: '/' :: rest => (['*', '/'], rest)
  | c :: rest => let (inside, after) := splitBlock rest; (c :: inside, after)

/-- Whether `c` goes on with a number whose character before it is `last`; a sign does so right
after the mark of an exponent. -/
def continuesNumber (last c : Char) : Bool :=
  c.isAlphanum || c == '.' || ((c == '-' || c == '+') && (last == 'e' || last == 'E'))

/-- The rest of a number whose last character so far is `last`, and the text after it. -/
def splitNumber (last : Char) : List Char → List Char × List Char
  | [] => ([], [])
  | c :: rest =>
    if continuesNumber last c then
      let (inside, after) := splitNumber c rest
      (c :: inside, after)
    else ([], c :: rest)

/-- Whether a number starts with `c`: a digit does, and so does a point before a digit, unless the
point follows a name or a number directly. -/
def startsNumber (before : Option Char) (c : Char) (rest : List Char) : Bool :=
  c.isDigit ||
    (c == '.' && (rest.head?.any Char.isDigit) && !(before.any isWordChar))

theorem length_splitBlock (cs : List Char) : (splitBlock cs).2.length ≤ cs.length := by
  fun_induction splitBlock cs <;> grind

theorem length_splitNumber (last : Char) (cs : List Char) :
    (splitNumber last cs).2.length ≤ cs.length := by
  fun_induction splitNumber last cs <;> grind

theorem length_dropWhile (p : Char → Bool) (cs : List Char) :
    (cs.dropWhile p).length ≤ cs.length :=
  (List.dropWhile_suffix p).length_le

/-- The pieces of a text; `before` is the last character before it that is not blank, none at the
start and after a comment. -/
def scan (before : Option Char) : List Char → List Piece
  | [] => []
  | '/' :: '/' :: rest =>
    .other ('/' :: '/' :: rest.takeWhile (· != '\n')) :: scan none (rest.dropWhile (· != '\n'))
  | '/' :: '*' :: rest =>
    .other ('/' :: '*' :: (splitBlock rest).1) :: scan none (splitBlock rest).2
  | c :: rest =>
    if startsNumber before c rest then
      let number := c :: (splitNumber c rest).1
      .other number :: scan number.getLast? (splitNumber c rest).2
    else if isWordStart c then
      let name := c :: rest.takeWhile isWordChar
      (if before = some '.' then .other name else .word name) ::
        scan name.getLast? (rest.dropWhile isWordChar)
    else .other [c] :: scan (if isBlank c then before else some c) rest
termination_by cs => cs.length
decreasing_by
  · have := length_dropWhile (· != '\n') rest; simp only [List.length_cons]; omega
  · have := length_splitBlock rest; simp only [List.length_cons]; omega
  · have := length_splitNumber c rest; simp only [List.length_cons]; omega
  · have := length_dropWhile isWordChar rest; simp only [List.length_cons]; omega
  · simp

/-- The words of a text in order. -/
def words (code : String) : List String :=
  (scan none code.toList).filterMap fun
    | .word name => some (String.ofList name)
    | .other _ => none

variable {m : Type → Type} [Monad m]

/-- What a piece becomes when `rename` is asked about words; no answer keeps the word. -/
def Piece.replace (rename : String → m (Option String)) : Piece → m (List Char)
  | .other text => pure text
  | .word name => do
    match ← rename (String.ofList name) with
    | some text => pure text.toList
    | none => pure name

/-- The text with its words replaced. `rename` is asked about one word after another, and it can
fail or keep a memory. -/
def replaceWords (rename : String → m (Option String)) (code : String) : m String := do
  let pieces ← (scan none code.toList).mapM (Piece.replace rename)
  pure (String.ofList pieces.flatten)

end ShaderGraph.Glsl
