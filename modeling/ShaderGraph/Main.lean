import ShaderGraph.CommandLine.Run

/-!
The program itself: it runs on the files of the system, prints its result, and reports an error
apart from it.
-/

namespace ShaderGraph

/-- The error of the library for an error of the system. -/
def fileError : IO.Error → FileError
  | .noFileOrDirectory .. => .notFound
  | .inappropriateType _ code _ => if code = 20 then .notDirectory else .isDirectory
  | .invalidArgument _ code details => if code = 36 then .nameTooLong else .other details
  | e => .other (toString e)

def diskSystem : FileSystem IO where
  read path := do
    try
      match String.fromUTF8? (← IO.FS.readBinFile path) with
      | some text => return .ok text
      | none => return .error .notText
    catch e => return .error (fileError e)
  write path text := do
    try
      IO.FS.writeFile path text
      return .ok ()
    catch e => return .error (fileError e)

end ShaderGraph

def main (args : List String) : IO UInt32 := do
  match ← ShaderGraph.Program.run ShaderGraph.diskSystem args with
  | .ok text =>
    IO.print text
    return 0
  | .error e =>
    IO.eprintln ("Sandbox failed: " ++ e.message)
    return 1
