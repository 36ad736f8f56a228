import Gradual.Report.CommandLine

/-!
# The program

The outermost layer: it reads the file that the command line names, lets `Command.run` decide, and writes what that leaves. Log
events are written to the error output when they are important enough.
-/

namespace Gradual

/-- The read failure that an error of the system is. -/
def ReadFailure.ofSystem : IO.Error → ReadFailure
  | .noFileOrDirectory .. => .notFound
  | .inappropriateType _ 21 _ => .isDirectory
  | .inappropriateType .. => .notDirectory
  | .permissionDenied .. => .system "Permission denied" 13
  | .invalidArgument _ 4294967260 _ => .nameTooLong
  | .invalidArgument .. => .system "Invalid argument" 22
  | e => .system (toString e) 5

/-- The text of a file, or why it could not be read. -/
def readSource (path : String) : IO (Except ReadFailure String) := do
  match ← (IO.FS.readBinFile ⟨path⟩).toBaseIO with
  | .error e => pure (.error (.ofSystem e))
  | .ok bytes =>
    match String.fromUTF8? bytes with
    | some s => pure (.ok s)
    | none => pure (.error .notText)

/-- An event as a line of the log. -/
def Event.line (e : Event) : String :=
  let fields := e.fields.map fun (name, value) => " " ++ name ++ "=" ++ value.written
  e.severity.label ++ " " ++ e.target ++ ": " ++ e.message ++ String.join fields ++ "\n"

/-- What an emission writes to the error output when events up to `level` are logged. -/
def Emission.line (level : Severity) : Emission → String
  | .text s => s
  | .event e => if e.severity.rank ≤ level.rank then e.line else ""

/-- The level at which a command logs. -/
def Command.logLevel : Command → Severity
  | .check _ _ level => level
  | .version | .help => .warn

/-- The content of the one file that a command reads. -/
def Command.readContent : Command → IO (String → Except ReadFailure String)
  | .check file _ _ => do
    let content ← readSource file
    pure fun _ => content
  | .version | .help => pure fun _ => .error .notFound

/-- Writes what the program leaves, and yields its exit status. -/
def Effect.perform (e : Effect) (level : Severity) : IO UInt32 := do
  (← IO.getStdout).putStr e.output
  (← IO.getStderr).putStr (String.join (e.emitted.map (Emission.line level)))
  pure e.status.toUInt32

end Gradual

open Gradual in
/-- Checks the file that the arguments name. -/
def main (args : List String) : IO UInt32 := do
  match Command.ofArguments args with
  | .error e => e.effect.perform .warn
  | .ok command => do
    let content ← command.readContent
    (command.run content).perform command.logLevel
