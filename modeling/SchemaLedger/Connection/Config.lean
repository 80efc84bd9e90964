import SchemaLedger.Connection.Url
import SchemaLedger.Error

set_option autoImplicit false

/-!
# Configurations

How to reach one database. An unknown option is refused, never ignored.
-/
namespace SchemaLedger

/-- Whether a caller waits for an answer or is resumed by it. -/
inductive Calling where
  | blocking
  | suspending
  deriving DecidableEq

structure Config where
  dialect : Dialect
  /-- A file or `:memory:` for SQLite; an address, perhaps without its scheme, for PostgreSQL. -/
  target : String
  poolSize : Int := 5
  acquireTimeout : Double
  tls : Bool := false
  echo : Bool := false

namespace Config

def memoryTarget : String := ":memory:"

def seconds (n : Int) : Double := (Double.ofInt? n).getD .zero

def defaultTimeout : Double := seconds 30

/-- How long SQLite waits for a lock. -/
def busyTimeout : Double := seconds 30

/-! ## Reading -/

def optionNames : List String :=
  ["backend", "connection_target", "pool_max_size", "pool_acquire_timeout", "tls", "echo"]

def readDialect : Value → Checked Dialect
  | .text s =>
    match Dialect.ofName? s with
    | some d => .valid d
    | none => .issue (.notChoice Dialect.names)
  | _ => .issue (.notChoice Dialect.names)

def readTarget : Value → Checked String
  | .text s => if s = "" then .issue .tooShort else .valid s
  | _ => .issue .notText

def readUnknown (options : Entries) : Checked Unit :=
  match options.filter (!optionNames.contains ·.1) with
  | [] => .valid ()
  | unknown => .invalid (unknown.map fun o => ⟨[.name o.1], .extra⟩)

/-- Encryption needs a connection that can be encrypted. -/
def checkTls (c : Config) : Checked Config :=
  if c.tls && c.dialect = .sqlite then .issue .unsupportedTls else .valid c

def readOptions (options : Entries) : Checked Config :=
  let read : Checked Config :=
    (fun dialect target poolSize acquireTimeout tls echo _ =>
      { dialect, target, poolSize, acquireTimeout, tls, echo }) <$>
    Reading.required options "backend" readDialect <*>
    Reading.required options "connection_target" readTarget <*>
    Reading.part options "pool_max_size" 5 (Reading.integerFrom 1) <*>
    Reading.part options "pool_acquire_timeout" defaultTimeout Reading.positive <*>
    Reading.part options "tls" false Reading.bool <*>
    Reading.part options "echo" false Reading.bool <*>
    readUnknown options
  match read with
  | .valid c => checkTls c
  | other => other

def sortedNames (options : Entries) : List String :=
  (options.map (·.1)).mergeSort fun a b => decide (a ≤ b)

def build (options : Entries) : Result Config :=
  match readOptions options with
  | .valid c => .ok c
  | .invalid issues => .error (.config (.invalid (sortedNames options) issues))
  | .refused fault => .error (.schema fault)

/-- What an address itself says, so that no option may say it again. -/
def addressed : List String := ["url", "backend", "connection_target"]

def readUrl (s : String) (malformed : Error) : Result Url :=
  (Url.read s).mapError fun
    | .malformed => malformed
    | .unreadablePort port =>
      .defect .value s!"invalid literal for int() with base 10: {Text.quoted port}"
    | .emptyPort => .defect .type "Port argument must be an integer or None"

def targetOfUrl (s : String) (u : Url) : Result (Dialect × String) :=
  match Dialect.ofName? u.system with
  | some .sqlite =>
    match u.database with
    | some "" => .ok (.sqlite, memoryTarget)
    | some file => .ok (.sqlite, file)
    | none => .ok (.sqlite, memoryTarget)
  | some .postgresql => .ok (.postgresql, s)
  | none => .error (.config (.badScheme s u.system))

def ofUrl (s : String) (options : Entries) : Result Config := do
  let u ← readUrl s (.config (.badUrl s))
  let (dialect, target) ← targetOfUrl s u
  if options.any fun o => o.1 ∈ addressed then .error (.defect .type "")
  else build ([("backend", .text dialect.name), ("connection_target", .text target)] ++ options)

/-! ## Use -/

/-- Whether the database lives in one connection. -/
def isMemory (c : Config) : Bool :=
  c.dialect = .sqlite && (c.target = memoryTarget || c.target = "")

def driverScheme : Dialect → Calling → String
  | .sqlite, .blocking => "sqlite+pysqlite"
  | .sqlite, .suspending => "sqlite+aiosqlite"
  | .postgresql, .blocking => "postgresql+psycopg"
  | .postgresql, .suspending => "postgresql+asyncpg"

/-- The option that asks for encryption. -/
def tlsOption : Calling → String
  | .blocking => "sslmode"
  | .suspending => "ssl"

def hasScheme (s : String) : Bool := s.contains "://"

/-- The address that the driver is given. -/
def address (c : Config) (calling : Calling) : Result Url :=
  match c.dialect with
  | .sqlite => .ok { scheme := driverScheme .sqlite calling, database := some c.target }
  | .postgresql => do
    let s := if hasScheme c.target then c.target else "postgresql://" ++ c.target
    let u ← readUrl s (.defect .argument "")
    let u := { u with scheme := driverScheme .postgresql calling }
    .ok (if c.tls then u.withOption (tlsOption calling) "require" else u)

/-- How connections are kept. -/
inductive Pool where
  /-- One connection, which everybody uses. -/
  | single
  /-- A number of connections, each of one user at a time. -/
  | bounded (size : Int) (timeout : Double)

def pool (c : Config) : Pool :=
  if c.isMemory then .single else .bounded c.poolSize c.acquireTimeout

end Config

end SchemaLedger
