import SchemaLedger.Sql.Dialect

set_option autoImplicit false

/-!
# Identifiers

A name stands bare in a statement if its dialect reads it back as itself: lower-case, of plain
characters, and no reserved word. Any other name is quoted.
-/
namespace SchemaLedger.Sql

def sqliteReserved : List String :=
  ["add", "after", "all", "alter", "analyze", "and", "as", "asc", "attach", "autoincrement",
    "before", "begin", "between", "by", "cascade", "case", "cast", "check", "collate", "column",
    "commit", "conflict", "constraint", "create", "cross", "current_date", "current_time",
    "current_timestamp", "database", "default", "deferrable", "deferred", "delete", "desc",
    "detach", "distinct", "drop", "each", "else", "end", "escape", "except", "exclusive",
    "exists", "explain", "fail", "false", "for", "foreign", "from", "full", "glob", "group",
    "having", "if", "ignore", "immediate", "in", "index", "indexed", "initially", "inner",
    "insert", "instead", "intersect", "into", "is", "isnull", "join", "key", "left", "like",
    "limit", "match", "natural", "not", "notnull", "null", "of", "offset", "on", "or", "order",
    "outer", "plan", "pragma", "primary", "query", "raise", "references", "reindex", "rename",
    "replace", "restrict", "right", "rollback", "row", "select", "set", "table", "temp",
    "temporary", "then", "to", "transaction", "trigger", "true", "union", "unique", "update",
    "using", "vacuum", "values", "view", "virtual", "when", "where"]

def postgresReserved : List String :=
  ["all", "analyse", "analyze", "and", "any", "array", "as", "asc", "asymmetric", "authorization",
    "between", "binary", "both", "case", "cast", "check", "collate", "column", "constraint",
    "create", "cross", "current_catalog", "current_date", "current_role", "current_schema",
    "current_time", "current_timestamp", "current_user", "default", "deferrable", "desc",
    "distinct", "do", "else", "end", "except", "false", "fetch", "for", "foreign", "freeze",
    "from", "full", "grant", "group", "having", "ilike", "in", "initially", "inner", "intersect",
    "into", "is", "isnull", "join", "leading", "left", "like", "limit", "localtime",
    "localtimestamp", "natural", "new", "not", "notnull", "null", "of", "off", "offset", "old",
    "on", "only", "or", "order", "outer", "over", "overlaps", "placing", "primary", "references",
    "returning", "right", "select", "session_user", "similar", "some", "symmetric", "table",
    "then", "to", "trailing", "true", "union", "unique", "user", "using", "variadic", "verbose",
    "when", "where", "window", "with"]

def reserved : Dialect → List String
  | .sqlite => sqliteReserved
  | .postgresql => postgresReserved

def isPlainChar (c : Char) : Bool := c.isAlphanum || c = '_' || c = '$'

def startsBadly : List Char → Bool
  | [] => true
  | c :: _ => c.isDigit || c = '$'

def needsQuotes (d : Dialect) (name : String) : Bool :=
  let cs := name.toList
  startsBadly cs || !cs.all isPlainChar || cs.any Char.isUpper || name ∈ reserved d

/-- A quote inside the name is doubled, and so is a percent sign where placeholders start with one. -/
def escapeChar (d : Dialect) (c : Char) : List Char :=
  if c = '"' then ['"', '"']
  else if c = '%' ∧ d = .postgresql then ['%', '%']
  else [c]

def quoted (d : Dialect) (name : String) : String :=
  String.ofList ('"' :: (name.toList.flatMap (escapeChar d) ++ ['"']))

def quote (d : Dialect) (name : String) : String :=
  if needsQuotes d name then quoted d name else name

end SchemaLedger.Sql
