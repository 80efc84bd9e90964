import SchemaLedger.Command.Run
import SchemaLedger.Console.Table

set_option autoImplicit false

/-!
# Answers as text

The answer of a command, as a document or for a reader at a console.
-/
namespace SchemaLedger.Answer

def versionText : String := "Schemawright v0.1.0"

/-! ## Documents -/

def errorDocument (e : Error) : Value :=
  match e.report? with
  | some r =>
    .object [("error", .text r.kind.name), ("message", .text r.message), ("context", .object r.context)]
  | none => .object [("error", .text e.text)]

/-- The document of an answer; the version has none. -/
def document? : Answer → Option Value
  | .version => none
  | .success message details =>
    some (.object (details.foldl (fun es d => Entries.put d.1 d.2 es)
      [("success", .bool true), ("message", .text message)]))
  | .written batch _ => some (Json.toDocument batch.toValue)
  | .history records => some (.list (records.map (·.toValue)))
  | .statements list => some (.object [("statements", textList list)])
  | .failure e => some (errorDocument e)

/-! ## Console -/

open Console (wrap panel shown)

def paragraph (s : String) : List (List Char) := wrap .fold Console.width (shown s)

def successLines (message : String) (details : Entries) : List (List Char) :=
  paragraph s!"✓ {message}" ++ details.flatMap fun (key, v) => paragraph s!"  {key}: {v.plain}"

def batchTable (b : Batch) : Console.Table :=
  { headers := ["#", "Kind", "Change"]
    rows := ((List.range b.steps.length).zip b.steps).map fun (i, step) =>
      [toString i, step.kind, step.describe] }

def batchLines (b : Batch) : List (List Char) :=
  paragraph s!"\nMigration {b.version}: {b.name}" ++ (batchTable b).lines

def historyTable (records : List Applied) : Console.Table :=
  { title := some "Migration History"
    headers := ["version", "name", "applied_at", "steps"]
    rows := records.map fun r =>
      [toString r.version, r.name, r.appliedAt.iso "T", "\n".intercalate r.describe] }

/-- Statements with semicolons after them and an empty line between them, in lines of full width. -/
def statementLines (list : List String) : List (List Char) :=
  let text := ";\n\n".intercalate list ++ ";"
  (Text.splitAtChar '\n' text.toList).flatMap fun line =>
    (Console.wrapLine .fold Console.width (Console.expandTabs 4 line)).map
      (Console.padded Console.width)

/-- The sentence of an error and the facts behind it. -/
def errorText (e : Error) : String :=
  match e.report? with
  | some r =>
    if r.context.isEmpty then r.message
    else r.message ++ "\n\n" ++ "\n".intercalate (r.context.map fun (key, v) => s!"{key}: {v.plain}")
  | none => e.text

def lines : Answer → List (List Char)
  | .version => [versionText.toList]
  | .success message details => successLines message details
  | .written batch path =>
    batchLines batch ++ successLines s!"Wrote migration {batch.version} to {path}"
      [("steps", .int batch.steps.length)]
  | .history records => (historyTable records).lines
  | .statements list => statementLines list
  | .failure e => panel e.name (errorText e)

/-- All that a command prints. -/
def text (a : Answer) (document : Bool) : String :=
  match document, a.document? with
  | true, some v => Json.render .indented v ++ "\n"
  | _, _ => String.join (a.lines.map fun line => String.ofList line ++ "\n")

def exitCode (a : Answer) : Nat := if a.isFailure then 1 else 0

end SchemaLedger.Answer
