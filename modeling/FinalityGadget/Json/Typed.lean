import FinalityGadget.Bytes
import FinalityGadget.Json
import FinalityGadget.Text.Quoted

/-!
# Reading values of a type from JSON

A value that does not fit is reported by what stands there and what was expected. A record may be
given as an object or as the array of its fields in order. The fields of an object are checked in
the order in which they stand; only then the first missing one is reported. Other fields are
ignored.
-/

namespace FinalityGadget.Json

/-- What stands where something else was expected. -/
inductive Found
  | null
  | bool (b : Bool)
  | integer (n : Int)
  | float (x : Binary64)
  | string (s : String)
  | sequence
  | map

namespace Found

def describe : Found → String
  | .null => "null"
  | .bool b => s!"boolean `{b}`"
  | .integer n => s!"integer `{n}`"
  | .float x => "floating point `" ++ x.text ++ "`"
  | .string s => "string " ++ Text.quote s
  | .sequence => "sequence"
  | .map => "map"

end Found

/-- Why a JSON value is not a value of a type. -/
inductive ReadError
  | missingField (name : String)
  | duplicateField (name : String)
  | unknownVariant (found : String) (expected : List String)
  | missingVariant (type : String)
  | invalidType (found : Found) (expected : String)
  | invalidValue (found : Found) (expected : String)
  | invalidLength (length : Nat) (expected : String)

namespace ReadError

def message : ReadError → String
  | .missingField name => "missing field `" ++ name ++ "`"
  | .duplicateField name => "duplicate field `" ++ name ++ "`"
  | .unknownVariant found expected =>
    "unknown variant `" ++ found ++ "`, expected " ++
      " or ".intercalate (expected.map fun name => "`" ++ name ++ "`")
  | .missingVariant type => "no variant of enum " ++ type ++ " found in flattened data"
  | .invalidType found expected => "invalid type: " ++ found.describe ++ ", expected " ++ expected
  | .invalidValue found expected => "invalid value: " ++ found.describe ++ ", expected " ++ expected
  | .invalidLength length expected => s!"invalid length {length}, expected " ++ expected

end ReadError

def found : Json → Found
  | .null => .null
  | .bool b => .bool b
  | .integer n => .integer n
  | .float x => .float x
  | .string s => .string s
  | .array _ => .sequence
  | .object _ => .map

/-- Reads an integer from 0 up to a limit. -/
def readUnsigned (limit : Nat) (expected : String) : Json → Except ReadError Nat
  | .integer n =>
    if 0 ≤ n ∧ n ≤ limit then .ok n.toNat else .error (.invalidValue (.integer n) expected)
  | value => .error (.invalidType value.found expected)

def readWord (value : Json) : Except ReadError Word := do
  return UInt64.ofNat (← readUnsigned Word.maxNat "u64" value)

def readByte (value : Json) : Except ReadError UInt8 := do
  return UInt8.ofNat (← readUnsigned 255 "u8" value)

def readBool : Json → Except ReadError Bool
  | .bool b => .ok b
  | value => .error (.invalidType value.found "a boolean")

def readList {α : Type} (item : Json → Except ReadError α) : Json → Except ReadError (List α)
  | .array items => items.mapM item
  | value => .error (.invalidType value.found "a sequence")

/-- A list is longer than the type it stands for. -/
def tooLong (items : List Json) : ReadError :=
  .invalidLength items.length "fewer elements in array"

/-- Reads the bytes of a byte string, as an array of numbers. -/
def readBytes (n : Nat) (value : Json) : Except ReadError (Bytes n) :=
  let expected := s!"an array of length {n}"
  match value with
  | .array items => do
    let bytes ← (items.take n).mapM readByte
    match Bytes.ofList? bytes with
    | some b => if n < items.length then .error (tooLong items) else return b
    | none => .error (.invalidLength items.length expected)
  | value => .error (.invalidType value.found expected)

/-- How a record is read: the checks of its fields, in order, and the record that they make up. -/
structure RecordReader (α : Type) where
  checks : List (String × (Json → Except ReadError Unit))
  build : (String → Option Json) → Except ReadError α

namespace RecordReader

variable {α β : Type}

def pure (a : α) : RecordReader α := ⟨[], fun _ => .ok a⟩

/-- One field more. -/
def field (reader : RecordReader (α → β)) (name : String) (read : Json → Except ReadError α) :
    RecordReader β where
  checks := reader.checks ++ [(name, fun value => (read value).map fun _ => ())]
  build get := do
    let f ← reader.build get
    match get name with
    | some value => return f (← read value)
    | none => .error (.missingField name)

/-- Checks the fields that belong to the record, in the order in which they stand. -/
def check (reader : RecordReader α) : List (String × Json) → Except ReadError Unit
  | [] => .ok ()
  | (name, value) :: fields => do
    match reader.checks.lookup name with
    | some ok => ok value
    | none => .ok ()
    reader.check fields

def read (reader : RecordReader α) (type : String) : Json → Except ReadError α
  | .object fields => do
    reader.check fields
    reader.build (List.lookup · fields)
  | .array items => do
    let fields := (reader.checks.map Prod.fst).zip items
    reader.check fields
    let size := reader.checks.length
    if items.length < size then
      .error (.invalidLength items.length s!"struct {type} with {size} elements")
    let record ← reader.build (List.lookup · fields)
    if size < items.length then .error (tooLong items)
    return record
  | value => .error (.invalidType value.found ("struct " ++ type))

end RecordReader

def ofWord (w : Word) : Json := .integer w.toNat

def ofBytes {n : Nat} (b : Bytes n) : Json := .array (b.toList.map fun x => .integer x.toNat)

end FinalityGadget.Json
