import AvroBindings.Json.Printer

/-!
# Faults of conversion

Why plain data is no value of a type.

## Main Definitions

* `ConversionError` — the causes; a fault inside a field is wrapped in the field it lies in.
* `ConversionError.cause` — the fault without its wrappers.
* `ConversionError.message` — the text.
-/

namespace AvroBindings

/-- Why plain data is no value of a type. -/
inductive ConversionError where
  /-- No alternative of a union takes the data; the alternatives are given by their texts. -/
  | noAlternative (value : Json) (alternatives : List String)
  /-- A reference that the table does not hold. -/
  | unsupported (name : String)
  /-- The data has another shape. -/
  | mismatch (expected : String) (value : Json)
  /-- A field is absent, has no default and does not admit null. -/
  | missingField (record field : String)
  /-- The data has a member that the record does not declare. -/
  | unknownField (record field : String)
  /-- The text is no symbol of the enum. -/
  | unknownSymbol (enum symbol : String)
  /-- The fault lies in a field of a record. -/
  | inField (record field : String) (source : ConversionError)

namespace ConversionError

/-- The fault without its wrappers. -/
def cause : ConversionError → ConversionError
  | .inField _ _ source => source.cause
  | error => error

/-- The text of a fault. -/
def message : ConversionError → String
  | .noAlternative value alternatives =>
    "no alternative of [" ++ ", ".intercalate alternatives ++ "] accepts " ++ value.compact
  | .unsupported name => s!"unsupported field type `{name}`"
  | .mismatch expected value => s!"expected {expected}, found {value.compact}"
  | .missingField record field => s!"missing field `{field}` of `{record}`"
  | .unknownField record field => s!"unknown field `{field}` for `{record}`"
  | .unknownSymbol enum symbol => s!"`{symbol}` is not a symbol of `{enum}`"
  | .inField record field source => record ++ "." ++ field ++ ": " ++ source.message

end ConversionError

end AvroBindings
