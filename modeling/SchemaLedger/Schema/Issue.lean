import SchemaLedger.Schema.LogicalType
import SchemaLedger.Value

set_option autoImplicit false

/-!
# Issues of a description

What is wrong at one place of a raw description. All issues of a description are reported together,
each with the names and positions that lead to its place.
-/
namespace SchemaLedger

inductive Issue.Step where
  | name (key : String)
  | position (index : Nat)
  deriving DecidableEq

/-- A kind of raw object that a description may hold. -/
inductive Shape where
  | field
  | reference
  | entity
  | schema
  | batch
  deriving DecidableEq

def Shape.label : Shape → String
  | .field => "FieldSpec"
  | .reference => "SingleReference"
  | .entity => "EntitySpec"
  | .schema => "SchemaSnapshot"
  | .batch => "MigrationBatch"

inductive Problem where
  | missing
  | extra
  | notText
  | tooShort
  | notBool
  | unreadableBool
  | notInteger
  | fractionalInteger
  | unreadableInteger
  | notNumber
  | unreadableNumber
  | notPositive
  | belowLeast (least : Int)
  | notChoice (choices : List String)
  | notLiteral (literal : String)
  | notShape (shape : Shape)
  | notTuple
  | notList
  | notObject
  | noTag
  | unknownTag (tag : String) (expected : List String)
  | untaggable
  | unsupportedTls
  | malformed (reason : String)
  | notDocument
  deriving DecidableEq

structure Issue where
  place : List Issue.Step
  problem : Problem
  deriving DecidableEq

namespace Problem

def code : Problem → String
  | .missing => "missing"
  | .extra => "extra_forbidden"
  | .notText => "string_type"
  | .tooShort => "string_too_short"
  | .notBool => "bool_type"
  | .unreadableBool => "bool_parsing"
  | .notInteger => "int_type"
  | .fractionalInteger => "int_from_float"
  | .unreadableInteger => "int_parsing"
  | .notNumber => "float_type"
  | .unreadableNumber => "float_parsing"
  | .notPositive => "greater_than"
  | .belowLeast _ => "greater_than_equal"
  | .notChoice _ => "enum"
  | .notLiteral _ => "literal_error"
  | .notShape _ => "model_type"
  | .notTuple => "tuple_type"
  | .notList => "list_type"
  | .notObject => "dict_type"
  | .noTag => "union_tag_not_found"
  | .unknownTag .. => "union_tag_invalid"
  | .untaggable => "model_attributes_type"
  | .unsupportedTls => "value_error"
  | .malformed _ => "json_invalid"
  | .notDocument => "json_type"

def inQuotes (s : String) : String := "'" ++ s ++ "'"

/-- Choices in a sentence: commas between them, and `or` before the last. -/
def alternatives (choices : List String) : String :=
  match choices.reverse with
  | [] => ""
  | [only] => inQuotes only
  | last :: rest => ", ".intercalate (rest.reverse.map inQuotes) ++ " or " ++ inQuotes last

def message : Problem → String
  | .missing => "Field required"
  | .extra => "Extra inputs are not permitted"
  | .notText => "Input should be a valid string"
  | .tooShort => "String should have at least 1 character"
  | .notBool => "Input should be a valid boolean"
  | .unreadableBool => "Input should be a valid boolean, unable to interpret input"
  | .notInteger => "Input should be a valid integer"
  | .fractionalInteger => "Input should be a valid integer, got a number with a fractional part"
  | .unreadableInteger => "Input should be a valid integer, unable to parse string as an integer"
  | .notNumber => "Input should be a valid number"
  | .unreadableNumber => "Input should be a valid number, unable to parse string as a number"
  | .notPositive => "Input should be greater than 0"
  | .belowLeast least => s!"Input should be greater than or equal to {least}"
  | .notChoice choices => "Input should be " ++ alternatives choices
  | .notLiteral literal => "Input should be " ++ inQuotes literal
  | .notShape shape => "Input should be a valid dictionary or instance of " ++ shape.label
  | .notTuple => "Input should be a valid tuple"
  | .notList => "Input should be a valid list"
  | .notObject => "Input should be a valid dictionary"
  | .noTag => "Unable to extract tag using discriminator 'kind'"
  | .unknownTag tag expected =>
    s!"Input tag '{tag}' found using 'kind' does not match any of the expected tags: " ++
      ", ".intercalate (expected.map inQuotes)
  | .untaggable => "Input should be a valid dictionary or object to extract fields from"
  | .unsupportedTls => "Value error, tls is not supported by the sqlite backend"
  | .malformed reason => "Invalid JSON: " ++ reason
  | .notDocument => "JSON input should be string, bytes or bytearray"

end Problem

def Issue.under (step : Issue.Step) (issue : Issue) : Issue :=
  { issue with place := step :: issue.place }

end SchemaLedger
