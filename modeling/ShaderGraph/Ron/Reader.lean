import ShaderGraph.Ron.Shape

/-!
# Reading object notation

Readers for records, lists, tuples and options, and `Ron.skip` for values that nobody asks for. A
budget bounds how deep values may be nested.
-/

namespace ShaderGraph.Ron

open Parse

variable {α σ : Type}

/-- What the head of a document may turn on. -/
structure Extensions where
  /-- An option may be written as its value alone. -/
  implicitSome : Bool
  /-- Records must be named. -/
  structNames : Bool
  /-- The brackets of an option may hold the fields or items of its value. -/
  unwrapVariants : Bool

namespace Extensions

def none : Extensions := ⟨false, false, false⟩

/-- The extensions with one more, if the name is known. -/
def insert? (e : Extensions) : String → Option Extensions
  | "implicit_some" => some { e with implicitSome := true }
  | "explicit_struct_names" => some { e with structNames := true }
  | "unwrap_variant_newtypes" => some { e with unwrapVariants := true }
  | "unwrap_newtypes" => some e
  | _ => Option.none

end Extensions

/-- Whether another item comes before the closing character; an item must follow a comma, unless
it is the first. -/
def more (closing : Char) (afterComma : Bool) : Parse Bool := do
  skipBlanks
  if (← peek) = some closing then return false
  if afterComma then return true else failure

/-- Runs a step for every item before the closing character, which is left. The number bounds the
items. -/
def eachItem (closing : Char) (step : σ → Parse σ) : Nat → Bool → σ → Parse σ
  | 0, _, _ => failure
  | bound + 1, afterComma, state => do
    if ← more closing afterComma then
      let state ← step state
      eachItem closing step bound (← comma) state
    else return state

/-- Items before a closing character, which is left. -/
def itemsBefore (closing : Char) (step : σ → Parse σ) (state : σ) : Parse σ := do
  let state ← eachItem closing step ((← get).length + 1) true state
  skipBlanks
  return state

/-- Items between two characters. -/
def bracketed (opening closing : Char) (step : σ → Parse σ) (state : σ) : Parse σ := do
  char opening
  let state ← itemsBefore closing step state
  char closing
  return state

def colon : Parse Unit := do
  skipBlanks
  char ':'
  skipBlanks

/-! ## Values that are passed over -/

/-- Whole numbers of `bits` bits: the greatest magnitude below zero and above. -/
def signedReach (bits : Nat) : Nat × Nat := (1 <<< (bits - 1), 1 <<< (bits - 1) - 1)

/-- The same of numbers without a sign. -/
def unsignedReach (bits : Nat) : Nat × Nat := (0, 1 <<< bits - 1)

/-- The suffixes of whole numbers and how far their types reach. -/
def wholeTypes : List (String × Nat × Nat) :=
  [("i8", signedReach 8), ("i16", signedReach 16), ("i32", signedReach 32),
    ("i64", signedReach 64), ("u8", unsignedReach 8), ("u16", unsignedReach 16),
    ("u32", unsignedReach 32), ("u64", unsignedReach 64)]

/-- A whole number within the type that its suffix names, or else within 64 bits. -/
def skipWhole : Parse Unit := do
  let w ← whole
  for (suffix, below, above) in wholeTypes do
    if ← w.trySuffix suffix then
      if w.within below above then return else failure
  if !w.within (signedReach 64).1 (unsignedReach 64).2 then failure

/-- A number of any type; a whole one that is too large is read as a float. -/
def skipNumber : Parse Unit := do
  let cs ← get
  let unsigned := if cs.head?.any (fun c => c == '+' || c == '-') then cs.drop 1 else cs
  let long := (unsigned.takeWhile isDigitChar).length < (unsigned.takeWhile isFloatChar).length
  let asFloat : Parse Unit := discard (float .double ["f32", "f64"])
  if long then asFloat else skipWhole <|> asFloat

/-- Where a value may stand without its own brackets. -/
inductive Place where
  | plain
  /-- Directly in the brackets of an option. -/
  | unwrapped
deriving DecidableEq

/-- An option of a value, which `content` reads. -/
def skipOption (e : Extensions) (content : Place → Parse Unit) : Parse Unit := do
  if ← tryWord "None" then return
  if !(← tryWord "Some") then failure
  skipBlanks
  if ← tryText "(" then
    skipBlanks
    content (if e.unwrapVariants then .unwrapped else .plain)
    discard comma
    char ')'
  else if e.implicitSome then content .plain
  else failure

/-- A value whose parts are read by `inner`, if it may have parts, and whose option by `content`. -/
def skipWith (e : Extensions) (content : Place → Parse Unit) (inner : Option (Parse Unit))
    (place : Place) : Parse Unit := do
  let within (read : (Unit → Parse Unit) → Parse Unit) (step : Parse Unit → Parse Unit) :
      Parse Unit :=
    match inner with
    | none => failure
    | some item => read fun _ => step item
  let items (opening closing : Char) (step : Parse Unit → Parse Unit) : Parse Unit :=
    within (fun step => bracketed opening closing step ()) step
  let bare (step : Parse Unit → Parse Unit) : Parse Unit :=
    within (fun step => itemsBefore ')' step ()) step
  let entry (key item : Parse Unit) : Parse Unit := do
    key
    colon
    item
  let field : Parse Unit → Parse Unit := entry (discard (name true))
  let recordOrTuple : Parse Unit := do
    if (← peek) ≠ some '(' then return
    if ← namedNext then items '(' ')' field else items '(' ')' id
  if place = .unwrapped then
    match ← shape with
    | .fields => return ← bare field
    | .items => return ← bare id
    | .one => pure ()
  if ← tryWords ["true", "false"] then return
  if (← ahead (tryWords ["None", "Some"])) then return ← skipOption e content
  if ← tryText "()" then return
  if ← tryWords ["inf", "inff32", "inff64", "NaN", "NaNf32", "NaNf64"] then return
  match ← get with
  | [] => failure
  | c :: rest =>
    if startsName c && !isStringOpening (c :: rest) then
      discard (name false)
      skipBlanks
      recordOrTuple
    else match c with
      | '(' => recordOrTuple
      | '[' => items '[' ']' id
      | '\x7b' => items '\x7b' '\x7d' fun item => entry item item
      | '"' | 'r' => discard string
      | 'b' => byteCharacter <|> byteString
      | '\'' => character
      | _ => if isFloatChar c && c ≠ 'e' && c ≠ 'E' && c ≠ '_' then skipNumber else failure

/-- Passes over any value. Every bracket takes one from the budget and every part another. -/
def skip (e : Extensions) : Nat → Place → Parse Unit
  | 0 => skipWith e (fun _ => failure) none
  | 1 => skipWith e (skip e 0) (some failure)
  | budget + 2 => skipWith e (skip e (budget + 1)) (some (skip e budget .plain))

/-! ## Values of a known type -/

/-- The fields between the brackets of a record. Known fields are read by their names, each at
most once, and others passed over; the names of the known ones that were read are given too. -/
def fields (e : Extensions) (budget : Nat) (known : List String)
    (read : String → σ → Parse σ) (state : σ) : Parse (σ × List String) :=
  bracketed '(' ')' (fun (state, seen) => do
    let field ← name true
    if field ∈ seen then failure
    colon
    if field ∈ known then return (← read field state, field :: seen)
    skip e budget .plain
    return (state, seen)) (state, [])

/-- A record that may have its name in front. -/
def record (e : Extensions) (budget : Nat) (recordName : String) (known : List String)
    (read : String → σ → Parse σ) (state : σ) : Parse σ := do
  if (← peek).any isNameRest then
    if (← name true) ≠ recordName then failure
  else if e.structNames then failure
  skipBlanks
  return (← fields e budget known read state).1

def list (item : Parse α) : Parse (List α) :=
  bracketed '[' ']' (fun items => return items ++ [← item]) []

/-- Items of a fixed number, with commas between them. -/
def tuple (item : Parse α) (n : Nat) : Parse (List α) := do
  let items ← bracketed '(' ')' (fun items => return items ++ [← item]) []
  if items.length = n then return items else failure

def option (e : Extensions) (item : Parse α) : Parse (Option α) := do
  if ← tryWord "None" then return none
  if ← tryWord "Some" then
    skipBlanks
    if (← peek) = some '(' then
      char '('
      skipBlanks
      let a ← item
      discard comma
      char ')'
      return some a
  if e.implicitSome then return some (← item)
  failure

/-- One of some names. -/
def oneOf (names : List (String × α)) : Parse α := do
  let n ← name true
  match names.find? (·.1 = n) with
  | some (_, a) => return a
  | none => failure

/-! ## Heads of documents -/

/-- The names in the brackets of an attribute. -/
def extensionNames (e : Extensions) : Nat → Parse Extensions
  | 0 => failure
  | bound + 1 => do
    match e.insert? (← name true) with
    | none => failure
    | some e => do
      let separated ← comma
      if (← peek).any isNameRest then
        if separated then extensionNames e bound else failure
      else return e

def texts : List String → Parse Unit
  | [] => return
  | t :: rest => do
    text t
    skipBlanks
    texts rest

/-- The attributes in front of a document. -/
def attributes (e : Extensions) : Nat → Parse Extensions
  | 0 => failure
  | bound + 1 => do
    if (← peek) ≠ some '#' then return e
    texts ["#", "!", "[", "enable", "("]
    let e ← extensionNames e ((← get).length + 1)
    skipBlanks
    texts [")", "]"]
    attributes e bound

/-- How deep values of a document may be nested. -/
def depthLimit : Nat := 128

/-- The value of a whole text; blanks and comments around it do not count. -/
def document (value : Extensions → Parse α) (s : String) : Option α :=
  let whole : Parse α := do
    skipBlanks
    let e ← attributes .none (s.length + 1)
    let a ← value e
    skipBlanks
    return a
  whole.run? s.toList

end ShaderGraph.Ron
