import ShaderGraph.Number.Decimal
import ShaderGraph.Text.NameChar
import ShaderGraph.Text.Parse

/-!
# Lexemes of object notation

Blanks and comments, names, numbers and strings, each as a reader that takes the lexeme from the
front of a text.
-/

namespace ShaderGraph.Ron

open Parse

def isBlank (c : Char) : Bool :=
  [' ', '\t', '\n', '\r', '\x0b', '\x0c', '\u0085', '\u200e', '\u200f', '\u2028', '\u2029'].contains c

/-- Where a blank is read: outside comments, in one that ends with its line, or in `n + 1` nested
ones. -/
inductive Gap where
  | plain
  | line
  | block (n : Nat)

/-- The text after blanks and comments; a comment that does not end, or a slash that starts none,
is an error. -/
def Gap.skip : Gap → List Char → Option (List Char)
  | .plain, [] => some []
  | .plain, '/' :: '/' :: rest => Gap.line.skip rest
  | .plain, '/' :: '*' :: rest => (Gap.block 0).skip rest
  | .plain, c :: rest =>
    if isBlank c then Gap.plain.skip rest else if c = '/' then none else some (c :: rest)
  | .line, [] => some []
  | .line, c :: rest => if c = '\n' then Gap.plain.skip rest else Gap.line.skip rest
  | .block _, [] => none
  | .block n, '/' :: '*' :: rest => (Gap.block (n + 1)).skip rest
  | .block 0, '*' :: '/' :: rest => Gap.plain.skip rest
  | .block (n + 1), '*' :: '/' :: rest => (Gap.block n).skip rest
  | .block n, _ :: rest => (Gap.block n).skip rest

def skipBlanks : Parse Unit := fun cs => (Gap.plain.skip cs).map ((), ·)

/-- Takes a comma between blanks, if there is one, and says whether it did. -/
def comma : Parse Bool := do
  skipBlanks
  if (← peek) = some ',' then
    char ','
    skipBlanks
    return true
  return false

/-! ## Names -/

/-- Takes a word unless a name goes on after it, and says whether it did. -/
def tryWord (word : String) : Parse Bool := fun cs =>
  let rest := cs.drop word.length
  if word.toList.isPrefixOf cs && !(rest.head?.any isNameRest) then some (true, rest)
  else some (false, cs)

/-- Characters that a name written with a mark in front may hold. -/
def isMarkedChar (c : Char) : Bool := c == '.' || c == '+' || c == '-' || isNameRest c

/-- Openings of strings, byte strings and bytes, which are no names. -/
def isStringOpening (cs : List Char) : Bool :=
  ["r\"", "r#\"", "r##", "b\"", "b'", "br#", "br\""].any fun s => s.toList.isPrefixOf cs

def startsName (c : Char) : Bool := c == '_' || isNameStart c

/-- A name. If `strict`, no point or sign may follow directly. -/
def name (strict : Bool) : Parse String := do
  let cs ← get
  if isStringOpening cs then failure
  match cs with
  | 'r' :: '#' :: rest =>
    let marked := rest.takeWhile isMarkedChar
    if marked.isEmpty then failure
    set (rest.dropWhile isMarkedChar)
    return String.ofList marked
  | c :: rest =>
    if !startsName c then failure
    let after := rest.dropWhile isNameRest
    if strict && after.head?.any isMarkedChar then failure
    set after
    return String.ofList (c :: rest.takeWhile isNameRest)
  | [] => failure

/-! ## Numbers -/

/-- Takes a sign, if there is one, and says whether it was a minus. -/
def sign : Parse Bool := do
  match ← peek with
  | some '-' => do char '-'; return true
  | some '+' => do char '+'; return false
  | _ => return false

def isDigitChar (c : Char) : Bool := (hexDigit? c).isSome || c == '_'

/-- The base that a mark in front of digits announces. -/
def base : Parse Nat := do
  if ← tryText "0x" then return 16
  else if ← tryText "0b" then return 2
  else if ← tryText "0o" then return 8
  else return 10

/-- The number that digits of a base stand for; underscores between them do not count. -/
def ofDigits? (base : Nat) (digits : List Char) : Option Nat :=
  (digits.filter (· != '_')).foldlM
    (fun n c => do
      let d ← hexDigit? c
      if d < base then some (n * base + d) else none) 0

structure Whole where
  negative : Bool
  magnitude : Nat
  base : Nat

def whole : Parse Whole := do
  let negative ← sign
  let b ← base
  let digits ← span isDigitChar
  if digits.isEmpty || digits.head? = some '_' then failure
  match ofDigits? b digits with
  | some n => return ⟨negative, n, b⟩
  | none => failure

namespace Whole

/-- Takes the suffix of a type if it comes next, and says whether it did. Only numbers in base ten
or two have suffixes. -/
def trySuffix (w : Whole) (suffix : String) : Parse Bool :=
  if w.base = 10 ∨ w.base = 2 then tryWord suffix else return false

/-- Whether the number lies within a type that reaches down to minus `below` and up to `above`. -/
def within (w : Whole) (below above : Nat) : Bool :=
  w.magnitude ≤ (if w.negative then below else above)

end Whole

/-- A whole number of 32 bits without a sign. -/
def word32 : Parse UInt32 := do
  let w ← whole
  if !w.within 0 (UInt32.size - 1) then failure
  let _ ← w.trySuffix "u32"
  return .ofNat w.magnitude

def isFloatChar (c : Char) : Bool := c.isDigit || ['e', 'E', '.', '+', '-', '_'].contains c

/-- A run of number characters without its underscores, which may follow a digit or the mark of
the exponent but not a point. -/
def withoutUnderscores (allowed : Bool) : List Char → Option (List Char)
  | [] => some []
  | '_' :: rest => if allowed then withoutUnderscores allowed rest else none
  | c :: rest =>
    let allowed := if c.isDigit || c == 'e' || c == 'E' then true
      else if c == '.' then false else allowed
    (withoutUnderscores allowed rest).map (c :: ·)

/-- The words for infinities and for what is not a number. -/
def specials (f : Format) : List (String × Binary f) :=
  [("inf", .infinite false), ("+inf", .infinite false), ("-inf", .infinite true),
    ("NaN", .nan false), ("+NaN", .nan false), ("-NaN", .nan true)]

/-- Takes one of some words if it comes next, and says whether it did. -/
def tryWords : List String → Parse Bool
  | [] => return false
  | word :: rest => do if ← tryWord word then return true else tryWords rest

def special? (f : Format) (suffixes : List String) :
    List (String × Binary f) → Parse (Option (Binary f))
  | [] => return none
  | (word, x) :: rest => do
    if ← tryWords (word :: suffixes.map (word ++ ·)) then return some x
    special? f suffixes rest

/-- A number in a format, after which one of some suffixes may stand. -/
def float (f : Format) (suffixes : List String) : Parse (Binary f) := do
  if let some x ← special? f suffixes (specials f) then return x
  let run ← span isFloatChar
  match (withoutUnderscores false run).bind Decimal.ofChars? with
  | some d =>
    let _ ← tryWords suffixes
    return d.toBinary
  | none => failure

def single : Parse Single := float .single ["f32"]

def double : Parse Double := float .double ["f64"]

/-! ## Strings -/

/-- A byte that two hexadecimal digits stand for. -/
def byte : Parse Nat := do
  let digit : Parse Nat := do (hexDigit? (← next)).getDM failure
  let high ← digit
  return high * 16 + (← digit)

/-- The character that bytes encode, if they encode exactly one. -/
def decodeBytes (bytes : List Nat) : Option Char :=
  match String.fromUTF8? ⟨(bytes.map UInt8.ofNat).toArray⟩ with
  | some s => match s.toList with
    | [c] => some c
    | _ => none
  | none => none

/-- The character that starts with some bytes and has at most `n` more, each escaped by itself. -/
def moreBytes : Nat → List Nat → Parse Char
  | n, bytes => do
    match decodeBytes bytes with
    | some c => return c
    | none =>
      match n with
      | 0 => failure
      | n + 1 =>
        text "\\x"
        moreBytes n (bytes ++ [← byte])

/-- Up to `n` hexadecimal digits before a closing brace. -/
def bracedDigits : Nat → Parse (List Nat)
  | 0 => return []
  | n + 1 => do
    if (← peek) = some '}' then return []
    match hexDigit? (← next) with
    | some d => return d :: (← bracedDigits n)
    | none => failure

/-- The character that stands after a backslash; one outside strings has a single byte at most. -/
def escape (inString : Bool) : Parse Char := do
  match ← next with
  | '\'' => return '\''
  | '"' => return '"'
  | '\\' => return '\\'
  | 'n' => return '\n'
  | 'r' => return '\r'
  | 't' => return '\t'
  | '0' => return '\x00'
  | 'x' => moreBytes (if inString then 3 else 0) [← byte]
  | 'u' => do
    char '{'
    let digits ← bracedDigits 6
    if digits.isEmpty then failure
    char '}'
    let code := digits.foldl (fun n d => n * 16 + d) 0
    if code.isValidChar then return Char.ofNat code else failure
  | _ => failure

/-- What stands after a backslash in a string of bytes, where any byte may be given. -/
def byteEscape : Parse Char := do
  if (← peek) = some 'x' then
    char 'x'
    return Char.ofNat (← byte)
  escape false

/-- The characters up to the closing quote; `escaped` reads what stands after a backslash. The
number bounds how many are read. -/
def stringRest (escaped : Parse Char) : Nat → Parse (List Char)
  | 0 => failure
  | bound + 1 => do
    match ← next with
    | '"' => return []
    | '\\' => do
      let c ← escaped
      return c :: (← stringRest escaped bound)
    | c => return c :: (← stringRest escaped bound)

/-- The characters up to a closing text, which is taken too. -/
def upTo (closing : List Char) : List Char → Option (List Char × List Char)
  | [] => none
  | c :: rest =>
    if closing.isPrefixOf (c :: rest) then some ([], (c :: rest).drop closing.length)
    else (upTo closing rest).map fun (inside, after) => (c :: inside, after)

/-- The rest of a raw string after its first mark: hashes and a quote on either side. -/
def rawRest : Parse (List Char) := do
  let hashes ← span (· == '#')
  char '"'
  fun cs => upTo ('"' :: hashes) cs

def string : Parse String := do
  match ← next with
  | '"' => return String.ofList (← stringRest (escape true) ((← get).length + 1))
  | 'r' => return String.ofList (← rawRest)
  | _ => failure

/-- A string of bytes, which stand for themselves or are escaped. -/
def byteString : Parse Unit := do
  char 'b'
  match ← next with
  | '"' => discard (stringRest byteEscape ((← get).length + 1))
  | 'r' => discard rawRest
  | _ => failure

/-- A character between single quotes. -/
def character : Parse Unit := do
  char '\''
  if (← next) = '\\' then discard (escape false)
  char '\''

/-- A byte between single quotes. -/
def byteCharacter : Parse Unit := do
  text "b'"
  match ← next with
  | '\\' => if (← peek) = some 'u' then failure else discard byteEscape
  | c => if 0x80 ≤ c.toNat then failure
  char '\''

/-! ## Strings without an end -/

/-- Whether the text after an opening quote has no closing one and nothing else is wrong with it.
The number bounds the escapes. -/
def lacksQuote (escaped : Parse Char) : Nat → List Char → Bool
  | 0, _ => true
  | bound + 1, cs =>
    if !cs.contains '"' then true
    else match cs.dropWhile (fun c => c != '"' && c != '\\') with
      | '\\' :: rest =>
        match escaped rest with
        | some (_, rest) => lacksQuote escaped bound rest
        | none => false
      | _ => false

/-- Whether a raw string after its first mark has no end. -/
def lacksRawEnd (cs : List Char) : Bool :=
  match cs.dropWhile (· == '#') with
  | '"' :: rest => (upTo ('"' :: cs.takeWhile (· == '#')) rest).isNone
  | _ => false

def isEndlessString : List Char → Bool
  | '"' :: rest => lacksQuote (escape true) (rest.length + 1) rest
  | 'r' :: rest => lacksRawEnd rest
  | _ => false

def isEndlessByteString : List Char → Bool
  | 'b' :: '"' :: rest => lacksQuote byteEscape (rest.length + 1) rest
  | 'b' :: 'r' :: rest => lacksRawEnd rest
  | _ => false

end ShaderGraph.Ron
