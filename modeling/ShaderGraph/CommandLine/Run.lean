import ShaderGraph.CommandLine.Args
import ShaderGraph.CommandLine.Files
import ShaderGraph.Report
import ShaderGraph.Settings.Text

/-!
# Runs of the program

The arguments ask for the help, the list of node types, settings to be written, or a report, in this
order; the first that is asked for ends the run.
-/

namespace ShaderGraph

inductive ProgramError where
  | args (error : ArgsError)
  | file (error : FileError)
  | settings (error : SettingsError)
  | run (error : RunError)
deriving DecidableEq

def ProgramError.message : ProgramError → String
  | .args e => e.message
  | .file e => "I/O error: " ++ e.message
  | .settings e => e.message
  | .run e => e.message

namespace Program

variable {m : Type → Type} [Monad m]

/-- The ids of all node types, one to a line. -/
def listing : String :=
  String.join ((Library.registry.ids ++ Library.filterTypes.map NodeType.id).map (· ++ "\n"))

/-- The settings of a file, or the standard ones. -/
def load (fs : FileSystem m) : Option String → m (Except ProgramError Settings)
  | none => return .ok .standard
  | some path => do
    match ← fs.read path with
    | .error e => return .error (.file e)
    | .ok text => return (Settings.ofText text).mapError .settings

/-- The settings with what the arguments override. -/
def override (a : Args) (s : Settings) : Settings :=
  { s with format := a.format.getD s.format, frames := a.frames.getD s.frames }

def report (s : Settings) : Except ProgramError String :=
  match Report.run s with
  | .error e => .error (.run e)
  | .ok r => .ok (r.render s.format ++ "\n")

/-- What a run prints, or why it fails. -/
def run (fs : FileSystem m) (args : List String) : m (Except ProgramError String) := do
  match Args.parse args with
  | .error e => return .error (.args e)
  | .ok a =>
    if a.help then return .ok (Args.usage ++ "\n")
    if a.listNodes then return .ok listing
    match ← load fs a.config with
    | .error e => return .error e
    | .ok s =>
      let s := override a s
      match a.writeConfig with
      | none => return report s
      | some path =>
        match ← fs.write path s.toText with
        | .error e => return .error (.file e)
        | .ok () => return .ok ""

end Program

end ShaderGraph
