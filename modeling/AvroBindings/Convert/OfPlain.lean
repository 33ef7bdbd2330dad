import AvroBindings.Convert.Error
import AvroBindings.Table
import AvroBindings.Value

/-!
# Typed values from plain data

Plain JSON data read as a value of a type, with the references of the type looked up in a table.

## Main Definitions

* `Matching` — whether a `float` takes every number or only those written as floats.
* `Conversion` — a result, a fault, or neither because the fuel ran out.
* `convertStep` — one step of conversion, the parts left to a function.
* `convertWithin` — conversion with fuel.
* `Value.ofPlain?` — conversion with fuel enough for every conversion that ends at all.

## Design Notes

**Absence.**  Null is the only mark of an absent value; an optional takes every other value as
one of its inner type.  A field that is not in the data gets its default, converted like data,
or else null if its type admits it.

**Unions.**  A union first looks for an alternative that takes the data exactly, references to
enums before all others, so that a symbol stays a symbol and an integer stays an integer.  If
there is none, the first alternative in order that takes the data at all is chosen.  Inside an
exact attempt everything is exact, nested defaults included.

**Termination.**  A step into the data makes the data smaller, and a step that keeps the data
makes the type smaller.  Only a default starts again with data from the table.  If the default
of one field is started twice within itself under one matching, the conversion never ends; so
one that ends starts a default at most twice for each field that has one, and `conversionFuel`
multiplies that out.
-/

namespace AvroBindings

/-- How strictly numbers are matched against `float`. -/
inductive Matching where
  /-- Only numbers written with a fraction or an exponent. -/
  | exact
  /-- Every number. -/
  | coercing
deriving DecidableEq

/-- A conversion: a value or a fault; `none` when the fuel ran out first. -/
abbrev Conversion := ExceptT ConversionError Option

namespace Conversion

/-- The conversion that has run out of fuel. -/
def unfinished {α : Type} : Conversion α := ExceptT.mk none

/-- The first success of a function on a list; faults on the way are forgotten. -/
def first? {α β : Type} (f : α → Conversion β) : List α → Option (Option β)
  | [] => some none
  | x :: rest =>
    match (f x).run with
    | none => none
    | some (.ok y) => some (some y)
    | some (.error _) => first? f rest

end Conversion

/-- Whether an integer fits a signed 64 bit word. -/
def fitsWord (n : Int) : Bool := -0x8000000000000000 ≤ n && n < 0x8000000000000000

/-- A value of a primitive kind. -/
def Primitive.ofPlain (kind : Primitive) (matching : Matching) (plain : Json) :
    Except ConversionError Value :=
  match kind, plain with
  | .null, .null => .ok .null
  | .boolean, .bool b => .ok (.boolean b)
  | .integer, .number (.int n) =>
    if fitsWord n then .ok (.int n) else .error (.mismatch kind.pythonName plain)
  | .float, .number (.float x) => .ok (.float x)
  | .float, .number (.int n) =>
    if matching = .coercing then .ok (.float (Binary64.ofInt n))
      else .error (.mismatch kind.pythonName plain)
  | .string, .string s => .ok (.string s)
  | _, _ => .error (.mismatch kind.pythonName plain)

/-- A symbol of an enum. -/
def Enumeration.ofPlain (enum : Enumeration) (reference : String) (plain : Json) :
    Except ConversionError Value :=
  match plain with
  | .string symbol =>
    if enum.symbols.contains symbol then .ok (.enum symbol)
      else .error (.unknownSymbol enum.name symbol)
  | _ => .error (.mismatch reference plain)

section

/-! ### One step -/

/-- The conversion of the parts, which a step is given. -/
abbrev PartConversion := Matching → Descriptor → Json → Conversion Value

variable (table : Table) (part : PartConversion)

/-- Whether a type is a reference to an enum of the table. -/
def Table.refersToEnum (table : Table) : Descriptor → Bool
  | .named name => (table.enum? name).isSome
  | _ => false

/-- The items of a sequence, in order. -/
def convertItems (matching : Matching) (item : Descriptor) : List Json → Conversion (List Value)
  | [] => return []
  | x :: rest => do
    let v ← part matching item x
    return v :: (← convertItems matching item rest)

/-- The entries of a map, in order. -/
def convertEntries (matching : Matching) (value : Descriptor) :
    List (String × Json) → Conversion (List (String × Value))
  | [] => return []
  | (k, x) :: rest => do
    let v ← part matching value x
    return (k, v) :: (← convertEntries matching value rest)

/-- The alternatives in the order of the exact attempt: references to enums first. -/
def Table.exactOrder (table : Table) (alternatives : List Descriptor) : List Descriptor :=
  alternatives.filter table.refersToEnum ++ alternatives.filter fun ty => !table.refersToEnum ty

/-- The value of a union. -/
def convertUnion (matching : Matching) (alternatives : List Descriptor) (plain : Json) :
    Conversion Value :=
  let refusal := ConversionError.noAlternative plain (alternatives.map Descriptor.text)
  match Conversion.first? (fun ty => part .exact ty plain) (table.exactOrder alternatives) with
  | none => Conversion.unfinished
  | some (some v) => return v
  | some none =>
    if matching = .exact then throw refusal
    else
      match Conversion.first? (fun ty => part .coercing ty plain) alternatives with
      | none => Conversion.unfinished
      | some (some v) => return v
      | some none => throw refusal

/-- The value of a field, from the members of an object. -/
def convertField (matching : Matching) (record : String) (members : List (String × Json))
    (field : Field) :
    Conversion Value :=
  match (members.lookup field.name).or field.default with
  | some plain =>
    ExceptT.adapt (ConversionError.inField record field.name) (part matching field.type plain)
  | none =>
    if field.type.admitsNull then return .null
    else throw (.missingField record field.name)

/-- The values of several fields, in order. -/
def convertFields (matching : Matching) (record : String) (members : List (String × Json)) :
    List Field → Conversion (List (String × Value))
  | [] => return []
  | field :: rest => do
    let v ← convertField part matching record members field
    return (field.name, v) :: (← convertFields matching record members rest)

/-- The value of a record.  A member that the record does not declare is refused before any
field is read. -/
def convertRecord (matching : Matching) (record : Record) (members : List (String × Json)) :
    Conversion Value :=
  match members.find? fun member => (record.field? member.1).isNone with
  | some (key, _) => throw (.unknownField record.name key)
  | none => do
    let fields ← convertFields part matching record.name members record.fields
    return .record record.name (Entries.ofPairs fields)

/-- The value of a reference. -/
def convertNamed (matching : Matching) (name : String) (plain : Json) : Conversion Value :=
  match table.find? name with
  | some (.record r) =>
    match plain with
    | .object members => convertRecord part matching r members
    | _ => throw (.mismatch name plain)
  | some (.enum e) => e.ofPlain name plain
  | none => throw (.unsupported name)

/-- One step of conversion: the type and the data are looked at, and their parts are left to
`part`. -/
def convertStep (matching : Matching) (ty : Descriptor) (plain : Json) : Conversion Value :=
  match ty with
  | .primitive kind => kind.ofPlain matching plain
  | .optional inner =>
    match plain with
    | .null => return .null
    | _ => part matching inner plain
  | .union alternatives => convertUnion table part matching alternatives plain
  | .list item =>
    match plain with
    | .array items => return .list (← convertItems part matching item items)
    | _ => throw (.mismatch ty.text plain)
  | .map value =>
    match plain with
    | .object members => return .map (← convertEntries part matching value members)
    | _ => throw (.mismatch ty.text plain)
  | .named name => convertNamed table part matching name plain

end

/-- Conversion with fuel: every step into a part takes one unit. -/
def convertWithin (table : Table) : Nat → PartConversion
  | 0 => fun _ _ _ => Conversion.unfinished
  | fuel + 1 => convertStep table (convertWithin table fuel)

/-! ### Enough fuel -/

mutual

/-- How deep optionals, unions, lists and maps nest in a type. -/
def Descriptor.height : Descriptor → Nat
  | .primitive _ => 0
  | .named _ => 0
  | .optional inner => inner.height + 1
  | .list item => item.height + 1
  | .map value => value.height + 1
  | .union alternatives => Descriptor.heights alternatives + 1

/-- The height of the highest of several types. -/
def Descriptor.heights : List Descriptor → Nat
  | [] => 0
  | ty :: rest => max ty.height (Descriptor.heights rest)

end

/-- The fields of all records of a table. -/
def Table.fields (table : Table) : List Field :=
  table.entries.flatMap fun entry =>
    match entry.2 with
    | .record r => r.fields
    | .enum _ => []

/-- The defaults of all fields of a table. -/
def Table.defaults (table : Table) : List Json := table.fields.filterMap Field.default

/-- Fuel for every conversion that ends: between two starts of a default the data gets smaller
at most as often as it is deep, and in between the type as often as it is high. -/
def conversionFuel (table : Table) (ty : Descriptor) (plain : Json) : Nat :=
  let starts := 2 * table.defaults.length + 1
  let depth := max plain.depth (Json.itemsDepth table.defaults)
  let height := max ty.height (Descriptor.heights (table.fields.map Field.type))
  starts * ((depth + 1) * (height + 1)) + 1

/-- The value of a type that plain data stands for, or why there is none; `none` if conversion
never ends. -/
def Value.ofPlain? (table : Table) (ty : Descriptor) (plain : Json) :
    Option (Except ConversionError Value) :=
  (convertWithin table (conversionFuel table ty plain) .coercing ty plain).run

/-- The value of the record or enum of a name. -/
def Value.ofPlainNamed? (table : Table) (name : String) (plain : Json) :
    Option (Except ConversionError Value) :=
  Value.ofPlain? table (.named name) plain

end AvroBindings
