import PredicateSql.CommandLine.Run
import Std.Time.Format

/-!
# The program

Reads the clock, the input and the files that the arguments name, and leaves the rest to
`CommandLine.run`.
-/

namespace PredicateSql.CommandLine

/-- The time of the clock, at its place and at the prime meridian. -/
def readClock : IO Clock := do
  let utcTime := DateTime.ofUnixTime? (← Std.Time.Timestamp.now).toNanosecondsSinceUnixEpoch.val
  let here ← Std.Time.PlainDateTime.now
  let localTime := (Date.ofDayNumber? (719162 + here.toEpochDay.val)).bind fun date =>
    DateTime.ofClock? date here.hour.val here.minute.val here.second.val here.nanosecond.val
  return { localTime := localTime.getD default, utcTime := utcTime.getD default }

/-- The text of a file, if it can be read. -/
def readText? (file : String) : IO (Option String) :=
  try return some (← IO.FS.readFile file) catch _ => return none

/-- The files that a command line names. -/
def Options.files (o : Options) : List String :=
  o.catalog :: o.config.toList

/-- The outcome of a command line, whose files and input are read before it starts. -/
def execute (args : List String) : IO Outcome := do
  let files := match Options.parse args with
    | .ok o => o.files
    | .error _ => []
  let texts ← files.mapM fun file => return (file, ← readText? file)
  let input ← if files.isEmpty then pure "" else (← IO.getStdin).readToEnd
  return run (fun file => (texts.lookup file).join) (← readClock) args input

end PredicateSql.CommandLine

/-- Runs a command line. -/
def main (args : List String) : IO UInt32 := do
  let outcome ← PredicateSql.CommandLine.execute args
  IO.print outcome.output
  return outcome.exitCode.toUInt32
