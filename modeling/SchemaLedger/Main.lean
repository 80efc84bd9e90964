import SchemaLedger.Calendar
import SchemaLedger.Command.Report
import Std.Time.DateTime.Timestamp

set_option autoImplicit false

/-!
# The program

Reads the files that a command names, runs it, writes the files that it changed and prints its
answer. This build is linked with no database driver, so commands that need a database report that
they cannot connect.
-/
namespace SchemaLedger

/-- The files that a command may read. -/
def Command.paths : Command → List String
  | .makeMigration model migrations _ => [model, migrations]
  | .migrate migrations model => migrations :: model.toList
  | .status migrations model => migrations :: model.toList
  | .sql migrations _ _ _ => [migrations]
  | _ => []

/-- A database without a driver: no connection is ever made. -/
def unlinked : Server Unit where
  connect s := (.error ⟨"OperationalError", "no database driver is linked", []⟩, s)
  answer _ _ s := (.ok {}, s)
  commit s := (.ok (), s)
  rollback s := s

def usage : String :=
  "Usage: schemawright [-d URL] [-e] [-j] COMMAND\n\n" ++
    "  makemigration MODEL [-m FILE] [-l LABEL]\n" ++
    "  migrate [-m FILE] [--model MODEL]\n" ++
    "  status [-m FILE] [--model MODEL]\n" ++
    "  history\n" ++
    "  sql [-m FILE] [-b BACKEND] [-v VERSION] [--down]\n" ++
    "  version"

def currentTime : IO Timestamp := do
  let now ← Std.Time.Timestamp.now
  let microseconds := now.toNanosecondsSinceUnixEpoch.val.toNat / 1000
  return (Timestamp.ofMicroseconds? microseconds).getD .epoch

/-- The text of a file, unless it cannot be read. -/
def readText (path : String) : IO (Option String) := do
  try
    return some (← IO.FS.readFile path)
  catch _ => return none

def readFiles (paths : List String) : IO Files :=
  paths.eraseDups.filterMapM fun path => do
    return (← readText path).map ((path, ·))

def runCommand (p : Preferences) (c : Command) : IO UInt32 := do
  let files ← readFiles c.paths
  let r := Command.run unlinked p (← currentTime) files c ()
  for (path, text) in r.files do
    if Entries.get? path files ≠ some text then IO.FS.writeFile path text
  IO.print (r.answer.text p.document)
  return r.answer.exitCode.toUInt32

end SchemaLedger

def main (arguments : List String) : IO UInt32 := do
  let url ← IO.getEnv SchemaLedger.Command.urlVariable
  match SchemaLedger.Command.ofArguments url arguments with
  | some (p, c) => SchemaLedger.runCommand p c
  | none => do
    IO.eprintln SchemaLedger.usage
    return 2
