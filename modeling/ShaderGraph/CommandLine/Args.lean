import ShaderGraph.Settings.Basic

/-!
# Arguments

Options and their values are read from left to right. An option that is given again replaces the
earlier one, and the argument after an option that needs a value is its value, whatever it is.
-/

namespace ShaderGraph

structure Args where
  config : Option String
  format : Option OutputFormat
  frames : Option UInt32
  writeConfig : Option String
  listNodes : Bool
  help : Bool
deriving DecidableEq

inductive ArgsError where
  | unknown (arg : String)
  | missingValue (flag : String)
  | invalidFormat (value : String)
  | invalidFrames (value : String)
deriving DecidableEq

namespace ArgsError

def message : ArgsError → String
  | .unknown arg => s!"Unknown argument `{arg}`"
  | .missingValue flag => s!"Missing value for `{flag}`"
  | .invalidFormat value => s!"Unknown output format `{value}` (expected glsl or json)"
  | .invalidFrames value => s!"Invalid frame count `{value}`"

end ArgsError

namespace Args

def empty : Args := ⟨none, none, none, none, false, false⟩

/-- A number of frames: decimal digits, perhaps after a plus. -/
def frames? (value : String) : Option UInt32 :=
  let digits := match value.toList with
    | '+' :: rest => rest
    | cs => cs
  let n := ofDigits digits
  if digits ≠ [] ∧ digits.all Char.isDigit ∧ n < UInt32.size then some (.ofNat n) else none

/-- The arguments with an option that has a value. -/
def withValue (a : Args) (flag value : String) : Except ArgsError Args :=
  match flag with
  | "--config" => .ok { a with config := some value }
  | "--format" =>
    match OutputFormat.ofName? value with
    | some f => .ok { a with format := some f }
    | none => .error (.invalidFormat value)
  | "--frames" =>
    match frames? value with
    | some n => .ok { a with frames := some n }
    | none => .error (.invalidFrames value)
  | "--write-config" => .ok { a with writeConfig := some value }
  | _ => .error (.unknown flag)

/-- The arguments with an option that has no value, if it is one. -/
def withSwitch? (a : Args) : String → Option Args
  | "--list-nodes" => some { a with listNodes := true }
  | "-h" | "--help" => some { a with help := true }
  | _ => none

def takesValue (flag : String) : Bool :=
  ["--config", "--format", "--frames", "--write-config"].contains flag

/-- Adds options to arguments that were read before. -/
def extend (a : Args) : List String → Except ArgsError Args
  | [] => .ok a
  | [flag] =>
    if takesValue flag then .error (.missingValue flag)
    else match a.withSwitch? flag with
      | some a => .ok a
      | none => .error (.unknown flag)
  | flag :: value :: rest =>
    if takesValue flag then
      match a.withValue flag value with
      | .ok a => a.extend rest
      | .error e => .error e
    else match a.withSwitch? flag with
      | some a => a.extend (value :: rest)
      | none => .error (.unknown flag)

def parse (args : List String) : Except ArgsError Args := empty.extend args

def usage : String :=
  "Usage: nodeshade_sandbox [OPTIONS]\n\n" ++
  "Options:\n" ++
  "  --config <FILE>        Load settings from a RON file\n" ++
  "  --format <glsl|json>   Output format (overrides the settings file)\n" ++
  "  --frames <N>           Frames to simulate (overrides the settings file)\n" ++
  "  --write-config <FILE>  Write the effective settings to a RON file and exit\n" ++
  "  --list-nodes           List available node types and exit\n" ++
  "  -h, --help             Print this help"

end Args

end ShaderGraph
