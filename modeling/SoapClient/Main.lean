import SoapClient.Program

/-!
The command line of the program. Only here files are read and reports printed. There is no access
to a network: calls and fetched descriptions fail as they do on a machine that is not connected.
-/

namespace SoapClient.Program

/-- What the system says about a file that cannot be read. -/
def fileFailure : IO.Error → String
  | .noFileOrDirectory _ code details =>
    (if details = "" then "No such file or directory" else details) ++
      " (os error " ++ toString code ++ ")"
  | e => toString e

/-- The content of a file. -/
def readFile (name : String) : IO (Except String (List UInt8)) := do
  try
    let bytes ← IO.FS.readBinFile name
    return .ok bytes.toList
  catch e => return .error (fileFailure e)

/-- Whether reports to the standard output are coloured. -/
def isColored : IO Bool := do
  let refused ← IO.getEnv "NO_COLOR"
  let stdout ← IO.getStdout
  return refused.isNone && (← stdout.isTty)

end SoapClient.Program

open SoapClient in
/-- Runs the program. -/
def main (words : List String) : IO UInt32 := do
  let colored ← Program.isColored
  let outcome ←
    match CommandLine.parse words with
    | .error failure => pure (Program.refuse failure)
    | .ok arguments => do
      let content ←
        if Program.isUrl arguments.description then pure (.error "")
        else Program.readFile arguments.description
      let world : Program.World := ⟨colored, fun _ => content, Http.Network.unreachable⟩
      pure (Program.perform world arguments)
  IO.print outcome.stdout
  IO.eprint outcome.stderr
  return outcome.exitCode.toUInt32
