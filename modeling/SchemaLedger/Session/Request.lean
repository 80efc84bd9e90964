import SchemaLedger.Migration.HistoryTable

set_option autoImplicit false

/-!
# Requests

What is sent to a database, as data, and its text. Each request is for one connection and has one
reply.
-/
namespace SchemaLedger

inductive Request where
  /-- Whether SQLite refuses dangling references from now on. -/
  | foreignKeys (enforced : Bool)
  | journal
  | begin (immediate : Bool)
  /-- Keeps other migrators out. -/
  | lock (sql : String)
  /-- The columns of the history table in one of the databases that SQLite has open. -/
  | historyColumns (database : String)
  | historyTable
  | createHistory
  | ddl (sql : String)
  | integrity
  | probe
  | text (sql : String)
  | select (s : Sql.Select)
  | insert (i : Sql.Insert)
  | update (u : Sql.Update)
  | delete (x : Sql.Delete)

namespace Request

/-- PostgreSQL's query for a table of a name that is visible outside the catalogue. -/
def historyTableText : String :=
  "SELECT pg_catalog.pg_class.relname \nFROM pg_catalog.pg_class " ++
    "JOIN pg_catalog.pg_namespace " ++
    "ON pg_catalog.pg_namespace.oid = pg_catalog.pg_class.relnamespace " ++
    "\nWHERE pg_catalog.pg_class.relname IN (%(table_names_1)s::VARCHAR) " ++
    "AND pg_catalog.pg_class.relkind = ANY (ARRAY[%(param_1)s::VARCHAR, %(param_2)s::VARCHAR, " ++
    "%(param_3)s::VARCHAR, %(param_4)s::VARCHAR, %(param_5)s::VARCHAR]) " ++
    "AND pg_catalog.pg_table_is_visible(pg_catalog.pg_class.oid) " ++
    "AND pg_catalog.pg_namespace.nspname != %(nspname_1)s::VARCHAR"

def switch (on : Bool) : String := if on then "ON" else "OFF"

def prepare (d : Dialect) : Request → Sql.Prepared
  | .foreignKeys enforced => .ofText s!"PRAGMA foreign_keys = {switch enforced}"
  | .journal => .ofText "PRAGMA journal_mode = WAL"
  | .begin immediate => .ofText (if immediate then "BEGIN IMMEDIATE" else "BEGIN")
  | .lock sql => .ofText sql
  | .historyColumns database =>
    .ofText s!"PRAGMA {database}.table_info(\"{HistoryTable.name}\")"
  | .historyTable => .ofText historyTableText
  | .createHistory => .ofText (HistoryTable.definition d)
  | .ddl sql => .ofText sql
  | .integrity => .ofText "PRAGMA foreign_key_check"
  | .probe => .ofText "SELECT 1"
  | .text sql => .ofText sql
  | .select s => .ofFragment d (s.render d)
  | .insert i => .ofFragment d (i.render d)
  | .update u => .ofFragment d (u.render d)
  | .delete x => .ofFragment d (x.render d)

def isBegin : Request → Bool
  | .begin _ => true
  | _ => false

end Request

/-- What a database answers: the rows of the result, how many rows were changed, and the key that it
counted last. -/
structure Reply where
  rows : List (List Value) := []
  changed : Int := 1
  counted : Value := .int 1

/-- What happens on the connections to a database. -/
inductive Event where
  | connect
  | close
  | commit
  | rollback
  | sent (request : Request) (text : String) (parameters : List (String × Sql.Bound))

end SchemaLedger
