import RavenLang.CommandLine.Interactive
import RavenLang.CommandLine.Script
import Std.Time.DateTime.Timestamp

/-!
# Main

The two programs, told apart by the name under which they are started: `repl` is
the interactive session, any other name the script runner. Files and the clock are
read here; all else is decided by the library.
-/

namespace RavenLang

def callDepth : Nat := 20000

def obstacle : IO.Error → Option CommandLine.Obstacle
  | .noFileOrDirectory .. => some .missing
  | .inappropriateType _ code _ => some (if code = 20 ∨ code = -20 then .notDirectory else .directory)
  | _ => none

def attempt {α : Type} (act : IO α) : IO (Except CommandLine.Obstacle α) := do
  try return .ok (← act)
  catch e =>
    match obstacle e with
    | some o => return .error o
    | none => throw e

/-- The one file that a program needs, which it may want to write. A new file is
made if it does, after the old one was read. -/
def fileAt (path : String) (writes : Bool) : IO CommandLine.Files := do
  let content ← attempt (IO.FS.readBinFile path)
  let made ← if writes then attempt (discard (IO.FS.Handle.mk path .append)) else pure (.ok ())
  let blocked := match made with
    | .ok () => none
    | .error o => some o
  return { read := fun _ => content, blocked := fun _ => blocked }

/-- A program is run at once when all its input is there, so its clock stands. -/
def currentCalls : IO Calls := do
  let now ← Std.Time.Timestamp.now
  return (Host.plain (.standing (Float.ofInt now.toMillisecondsSinceUnixEpoch.toInt))).calls callDepth

def report (o : CommandLine.Outcome) : IO UInt32 := do
  (← IO.getStdout).putStr o.out
  (← IO.getStderr).putStr o.err
  return .ofNat o.exit

open CommandLine in
def runScript (arguments : List String) : IO UInt32 := do
  let files ← match Script.readArguments arguments with
    | .request r => fileAt r.file false
    | _ => pure (Files.ofEntries [])
  report (Script.outcome (← currentCalls) files arguments)

open CommandLine in
def runInteractive (arguments : List String) : IO UInt32 := do
  match Interactive.readArguments arguments with
  | .request o =>
    let input ← (← IO.getStdin).readToEnd
    let files ← fileAt o.history (Interactive.entered (Shell.readInputs input).complete)
    report (Interactive.outcome (← currentCalls) files input arguments)
  | _ => report (Interactive.outcome (← currentCalls) (Files.ofEntries []) "" arguments)

end RavenLang

def main (arguments : List String) : IO UInt32 := do
  if (← IO.appPath).fileName = some "repl" then RavenLang.runInteractive arguments
  else RavenLang.runScript arguments
