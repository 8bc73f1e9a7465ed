import Assembly8085.CommandLine.Arguments
import Std.Time.Format

/-!
# The executable

Reads the file, lets the command decide what is to be written, and writes it. Entries of the
log get the local time at which they are written.
-/
namespace Assembly8085.CommandLine

/-- What a failure of the system to read a file amounts to. -/
def readFailure : IO.Error → ReadFailure
  | .noFileOrDirectory .. => .notFound
  | .inappropriateType _ code _ => if code = 21 then .isDirectory else .notDirectory
  | .permissionDenied _ code _ => .other ("Permission denied (os error " ++ toString code ++ ")")
  | failure => .other (toString failure)

/-- The text of a file. -/
def readText (file : String) : IO (Except ReadFailure (List Char)) := do
  try
    return decodeText (← IO.FS.readBinFile file)
  catch failure =>
    return .error (readFailure failure)

/-- The present time in front of an entry of the log. -/
def timeStamp : IO String := do
  let now ← Std.Time.PlainDateTime.now
  return now.format "'['uuuu-MM-dd']['HH:mm:ss']'"

/-- Writes what the command comes to, and exits with its status. -/
def write (outcome : Outcome) : IO UInt32 := do
  for output in outcome.outputs do
    IO.print (output.render (← timeStamp))
  return outcome.exit.toUInt32

/-- The package of the command. -/
def package : Package where
  name := "asm85"
  version := "0.1.0"
  authors := none
  description := "A scanner and parser front-end for Intel 8085 assembly."

/-- Does what the arguments ask for. -/
def start (arguments : List String) : IO UInt32 := do
  let tools := Tools.ofPackage package
  let contents ← match tools.ask arguments with
    | .run settings => readText settings.input
    | _ => pure (.error .notFound)
  match perform tools arguments fun _ => contents with
  | some outcome => write outcome
  | none =>
    IO.eprintln "error: these arguments are not understood\n\nFor more information try --help"
    return 1

end Assembly8085.CommandLine

/-- The command line. -/
def main (arguments : List String) : IO UInt32 :=
  Assembly8085.CommandLine.start arguments
