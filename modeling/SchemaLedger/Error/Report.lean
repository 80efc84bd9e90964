import SchemaLedger.Value.Display

set_option autoImplicit false

/-!
# Kinds of errors and their reports

Every error a caller can see has a kind, and the kinds form a tree: catching a kind catches the kinds
below it. A report is what the caller sees: the kind, a sentence, and the facts behind it by name.
-/
namespace SchemaLedger

inductive ErrorKind where
  | base
  | config
  | schema
  | entityNotFound
  | fieldNotFound
  | duplicateName
  | invalidPrimaryKey
  | unresolvedReference
  | diff
  | cyclicDependency
  | typeChangeUnsupported
  | migration
  | migrationApply
  | migrationHistory
  | compile
  | unknownField
  | unsupportedExpression
  | backend
  | connection
  | constraintViolation
  | foreignKeyViolation
  | pool
  | acquireTimeout
  | objectState
  | recordNotFound
  deriving DecidableEq

namespace ErrorKind

def all : List ErrorKind :=
  [.base, .config, .schema, .entityNotFound, .fieldNotFound, .duplicateName, .invalidPrimaryKey,
    .unresolvedReference, .diff, .cyclicDependency, .typeChangeUnsupported, .migration,
    .migrationApply, .migrationHistory, .compile, .unknownField, .unsupportedExpression, .backend,
    .connection, .constraintViolation, .foreignKeyViolation, .pool, .acquireTimeout, .objectState,
    .recordNotFound]

def name : ErrorKind → String
  | .base => "SchemawrightError"
  | .config => "ConfigError"
  | .schema => "SchemaError"
  | .entityNotFound => "EntityNotFoundError"
  | .fieldNotFound => "FieldNotFoundError"
  | .duplicateName => "DuplicateNameError"
  | .invalidPrimaryKey => "InvalidPrimaryKeyError"
  | .unresolvedReference => "UnresolvedReferenceError"
  | .diff => "DiffError"
  | .cyclicDependency => "CyclicDependencyError"
  | .typeChangeUnsupported => "TypeChangeUnsupportedError"
  | .migration => "MigrationError"
  | .migrationApply => "MigrationApplyError"
  | .migrationHistory => "MigrationHistoryError"
  | .compile => "CompileError"
  | .unknownField => "UnknownFieldError"
  | .unsupportedExpression => "UnsupportedExpressionError"
  | .backend => "BackendError"
  | .connection => "ConnectionError"
  | .constraintViolation => "ConstraintViolationError"
  | .foreignKeyViolation => "ForeignKeyViolationError"
  | .pool => "PoolError"
  | .acquireTimeout => "AcquireTimeoutError"
  | .objectState => "ObjectStateError"
  | .recordNotFound => "RecordNotFoundError"

def parent? : ErrorKind → Option ErrorKind
  | .base => none
  | .entityNotFound => some .schema
  | .fieldNotFound => some .schema
  | .duplicateName => some .schema
  | .invalidPrimaryKey => some .schema
  | .unresolvedReference => some .schema
  | .cyclicDependency => some .diff
  | .typeChangeUnsupported => some .diff
  | .migrationApply => some .migration
  | .migrationHistory => some .migration
  | .unknownField => some .compile
  | .unsupportedExpression => some .compile
  | .connection => some .backend
  | .constraintViolation => some .backend
  | .foreignKeyViolation => some .constraintViolation
  | .acquireTimeout => some .pool
  | .config => some .base
  | .schema => some .base
  | .diff => some .base
  | .migration => some .base
  | .compile => some .base
  | .backend => some .base
  | .pool => some .base
  | .objectState => some .base
  | .recordNotFound => some .base

/-- The kind and those above it, at most four in all. -/
def lineage (kind : ErrorKind) : List ErrorKind := go 4 kind
where
  go : Nat → ErrorKind → List ErrorKind
    | 0, _ => []
    | n + 1, k =>
      k :: (match k.parent? with
        | some p => go n p
        | none => [])

end ErrorKind

/-! ## Reports -/

structure Report where
  kind : ErrorKind
  message : String
  context : Entries

def textList (names : List String) : Value := .list (names.map .text)

def commaList (names : List String) : String := ", ".intercalate names

end SchemaLedger
