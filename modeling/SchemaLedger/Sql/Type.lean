import SchemaLedger.Schema.LogicalType
import SchemaLedger.Sql.Dialect

set_option autoImplicit false

/-!
# Column types

What a logical type is called in each dialect. A key that the database counts has a type of its own.
-/
namespace SchemaLedger.Sql

def sqliteType : LogicalType → String
  | .bool => "BOOLEAN"
  | .int => "INTEGER"
  | .bigint => "BIGINT"
  | .real => "FLOAT"
  | .text => "TEXT"
  | .date => "DATE"
  | .timestamp => "DATETIME"
  | .blob => "BLOB"
  | .uuid => "CHAR(32)"
  | .json => "JSON"

def postgresType : LogicalType → String
  | .bool => "BOOLEAN"
  | .int => "INTEGER"
  | .bigint => "BIGINT"
  | .real => "FLOAT"
  | .text => "TEXT"
  | .date => "DATE"
  | .timestamp => "TIMESTAMP WITHOUT TIME ZONE"
  | .blob => "BYTEA"
  | .uuid => "UUID"
  | .json => "JSONB"

def typeName : Dialect → LogicalType → String
  | .sqlite => sqliteType
  | .postgresql => postgresType

/-- The type of a key that the database counts. -/
def serialName : Dialect → LogicalType → String
  | .sqlite, _ => "INTEGER"
  | .postgresql, .bigint => "BIGSERIAL"
  | .postgresql, _ => "SERIAL"

/-- The cast that follows a placeholder for a value of the type, if the dialect writes one. -/
def placeholderCast : Dialect → LogicalType → String
  | .sqlite, _ => ""
  | .postgresql, .int => "::INTEGER"
  | .postgresql, .bigint => "::BIGINT"
  | .postgresql, .text => "::VARCHAR"
  | .postgresql, .date => "::DATE"
  | .postgresql, .timestamp => "::TIMESTAMP WITHOUT TIME ZONE"
  | .postgresql, .uuid => "::UUID"
  | .postgresql, .json => "::JSONB"
  | .postgresql, _ => ""

end SchemaLedger.Sql
