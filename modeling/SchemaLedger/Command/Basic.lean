import SchemaLedger.Command.Arguments
import SchemaLedger.Schema.Checked
import SchemaLedger.Sql.Dialect

set_option autoImplicit false

/-!
# Commands

What can be asked for on a command line: the preferences before the name of a command, and the
command with its own options.
-/
namespace SchemaLedger

/-- What is asked for before the command. -/
structure Preferences where
  url : Option String := none
  /-- Whether statements are shown as they are sent. -/
  echo : Bool := false
  /-- Whether the answer is a document. -/
  document : Bool := false

inductive Command where
  | version
  | makeMigration (model migrations label : String)
  | migrate (migrations : String) (model : Option String)
  | status (migrations : String) (model : Option String)
  | history
  | sql (migrations : String) (dialect : Option Dialect) (version : Option Int) (down : Bool)
  deriving DecidableEq

namespace Command

def defaultUrl : String := "sqlite:///./schemawright.db"

def defaultMigrations : String := "migrations.json"

/-- The variable of the environment that names the database. -/
def urlVariable : String := "SCHEMAWRIGHT_URL"

/-! ## Options -/

def preferenceSwitches : List Switch :=
  [{ name := "database", letter := 'd' }, { name := "echo", letter := 'e', valued := false },
    { name := "json", letter := 'j', valued := false }]

def migrationsSwitch : Switch := { name := "migrations", letter := 'm' }

def modelSwitch : Switch := { name := "model" }

def switches (name : String) : Option (List Switch) :=
  match name with
  | "version" => some []
  | "makemigration" => some [migrationsSwitch, { name := "label", letter := 'l' }]
  | "migrate" => some [migrationsSwitch, modelSwitch]
  | "status" => some [migrationsSwitch, modelSwitch]
  | "history" => some []
  | "sql" =>
    some [migrationsSwitch, { name := "backend", letter := 'b' }, { name := "version", letter := 'v' },
      { name := "down", valued := false }]
  | _ => none

/-! ## Reading -/

/-- A path without the parts that lead nowhere. -/
def path (s : String) : String :=
  let parts := (s.splitOn "/").filter fun part => part ≠ "" && part ≠ "."
  let relative := "/".intercalate parts
  if s.startsWith "/" then "/" ++ relative else if relative = "" then "." else relative

def migrationsOf (g : Given) : String := path ((g.value? "migrations").getD defaultMigrations)

/-- An integer, written without a point. -/
def integer? (s : String) : Option Int :=
  if s.toList.contains '.' then none else Reading.integerOfText? s

/-- An option that is absent, or else has to be readable. -/
def optional? {α : Type} (read : String → Option α) : Option String → Option (Option α)
  | none => some none
  | some s => (read s).map some

def sql? (g : Given) : Option Command := do
  let dialect ← optional? Dialect.ofName? (g.value? "backend")
  let version ← optional? integer? (g.value? "version")
  some (.sql (migrationsOf g) dialect version (g.has "down"))

/-- The command of a name with what was given for it. -/
def ofGiven? (name : String) (g : Given) : Option Command :=
  match name, g.rest with
  | "version", [] => some .version
  | "makemigration", [model] =>
    some (.makeMigration (path model) (migrationsOf g) ((g.value? "label").getD "auto"))
  | "migrate", [] => some (.migrate (migrationsOf g) ((g.value? "model").map path))
  | "status", [] => some (.status (migrationsOf g) ((g.value? "model").map path))
  | "history", [] => some .history
  | "sql", [] => sql? g
  | _, _ => none

/-- The database that is named by an option, or else by the environment. -/
def urlOf (g : Given) (environment : Option String) : Option String :=
  match g.value? "database", environment with
  | some url, _ => some url
  | none, some "" => none
  | none, url => url

/-- The command of a command line; none if it is not used as it should be. -/
def ofArguments (environment : Option String) (arguments : List String) :
    Option (Preferences × Command) := do
  let preferences ← Arguments.read preferenceSwitches false arguments
  match preferences.rest with
  | [] => none
  | name :: rest => do
    let given ← Arguments.read (← switches name) true rest
    let command ← ofGiven? name given
    some (⟨urlOf preferences environment, preferences.has "echo", preferences.has "json"⟩, command)

end Command

end SchemaLedger
