import SchemaLedger.Error.Report
import SchemaLedger.Schema.Issue
import SchemaLedger.Sql.Dialect

set_option autoImplicit false

/-!
# Faults of connections

Invalid configurations, and what a database answers instead of a result. Errors of a database keep
its own words.
-/
namespace SchemaLedger

inductive ConfigFault where
  | invalid (options : List String) (issues : List Issue)
  | badUrl (url : String)
  | badScheme (url scheme : String)
  | unsupported (backend : String)

namespace ConfigFault

def stepText : Issue.Step → String
  | .name key => key
  | .position index => toString index

/-- The place and the sentence of an issue; the place of the whole is `config`. -/
def issueText (issue : Issue) : String :=
  let place := ".".intercalate (issue.place.map stepText)
  (if place = "" then "config" else place) ++ s!": {issue.problem.message}"

def message : ConfigFault → String
  | .invalid _ issues => "Invalid backend configuration: " ++ "; ".intercalate (issues.map issueText)
  | .badUrl url => s!"Invalid database URL: {url}"
  | .badScheme _ scheme =>
    s!"Unsupported database URL scheme: {scheme}. Supported: " ++ commaList Dialect.names
  | .unsupported backend => s!"Unsupported backend: {backend}. Supported: " ++ commaList Dialect.names

def context : ConfigFault → Entries
  | .invalid options issues =>
    [("options", textList options), ("errors", textList (issues.map (·.problem.message)))]
  | .badUrl url => [("url", .text url)]
  | .badScheme url scheme => [("url", .text url), ("backend", .text scheme)]
  | .unsupported backend => [("backend", .text backend), ("supported", textList Dialect.names)]

def report (f : ConfigFault) : Report := ⟨.config, f.message, f.context⟩

end ConfigFault

/-- An error as the database's driver raises it. Each candidate for a state code is that of the error
itself or of the one behind it. -/
structure DriverError where
  name : String
  message : String
  codes : List (Option String) := []
  deriving DecidableEq

inductive BackendFault where
  | rejected (message : String) (dialect : Dialect) (statement : Option String)
  | constraint (message : String) (dialect : Dialect) (statement : Option String)
  | foreignKey (message : String) (dialect : Dialect) (statement : Option String)
  | dangling (dialect : Dialect) (rows : List (List Value))
  | unreachable (message : String) (dialect : Dialect) (target : Option String)

namespace BackendFault

def foreignKeyCode : String := "23503"

def isForeignKey : Dialect → DriverError → Bool
  | .sqlite, e => (e.message.splitOn "FOREIGN KEY constraint failed").length > 1
  | .postgresql, e =>
    e.codes.contains (some foreignKeyCode) ||
      (e.message.splitOn "violates foreign key constraint").length > 1

/-- What a driver's error means: only errors of integrity are told apart. -/
def ofDriver (d : Dialect) (e : DriverError) (statement : Option String) : BackendFault :=
  if e.name = "IntegrityError" then
    if isForeignKey d e then .foreignKey e.message d statement
    else .constraint e.message d statement
  else .rejected e.message d statement

def kind : BackendFault → ErrorKind
  | .rejected .. => .backend
  | .constraint .. => .constraintViolation
  | .foreignKey .. => .foreignKeyViolation
  | .dangling .. => .foreignKeyViolation
  | .unreachable .. => .connection

def firstTable (rows : List (List Value)) : String :=
  match rows with
  | (table :: _) :: _ => table.plain
  | _ => ""

def message : BackendFault → String
  | .rejected message _ _ => message
  | .constraint message _ _ => message
  | .foreignKey message _ _ => message
  | .dangling _ rows =>
    s!"Migration leaves {rows.length} dangling reference(s), first in table '{firstTable rows}'"
  | .unreachable message d _ => s!"Failed to connect to {d.name} database: {message}"

def optional : Option String → Value
  | some s => .text s
  | none => .null

def context : BackendFault → Entries
  | .rejected _ d statement => [("backend", .text d.name), ("statement", optional statement)]
  | .constraint _ d statement => [("backend", .text d.name), ("statement", optional statement)]
  | .foreignKey _ d statement => [("backend", .text d.name), ("statement", optional statement)]
  | .dangling d rows =>
    [("backend", .text d.name), ("violations", .list ((rows.take 10).map .list))]
  | .unreachable _ d target => [("backend", .text d.name), ("target", optional target)]

def report (f : BackendFault) : Report := ⟨f.kind, f.message, f.context⟩

end BackendFault

/-- No connection of a full pool came free in time. -/
def timeoutReport (seconds : Double) : Report :=
  ⟨.acquireTimeout,
    s!"Timed out after {seconds.text}s waiting for a pooled connection. " ++
      "Retry later or raise pool_max_size.",
    [("timeout", .float seconds)]⟩

end SchemaLedger
