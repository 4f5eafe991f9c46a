import Columnar.CommandLine.Run

/-! The command line. -/
namespace Columnar.CommandLine

/-- A fault of the system with its number, which may come negated. -/
def systemFault (code : UInt32) (details : String) : String :=
  let number := if code < 0x80000000 then code else 0 - code
  details.capitalize ++ " (os error " ++ toString number ++ ")"

def readingFault : IO.Error → String
  | .noFileOrDirectory _ code details => systemFault code details
  | .permissionDenied _ code details => systemFault code details
  | .inappropriateType _ code details => systemFault code details
  | .userError _ => "stream did not contain valid UTF-8"
  | e => toString e

def readFile (path : String) : IO (Except String String) := do
  try
    pure (.ok (← IO.FS.readFile path))
  catch e =>
    pure (.error (readingFault e))

/-- The variables that are set, of those with the given names. -/
def variablesOf : List String → IO Variables
  | [] => pure []
  | name :: rest => do
    let others ← variablesOf rest
    match ← IO.getEnv name with
    | some value => pure ((name, value) :: others)
    | none => pure others

end Columnar.CommandLine

open Columnar CommandLine in
/-- The variables that matter are the settings, and those that the file in the working directory names. -/
def main (args : List String) : IO UInt32 := do
  let file := (← readFile ".env").toOption.getD ""
  let vars ← variablesOf (Config.variableNames ++ namesIn file)
  let output ← run readFile vars args
  IO.print output.stdout
  IO.eprint output.stderr
  pure (.ofNat output.code)
