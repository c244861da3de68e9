import FinalityGadget.Binary64
import FinalityGadget.Word

/-!
# JSON values

A JSON value keeps integers exact and apart from numbers written with a point or an exponent. The
fields of an object are listed in ascending order of their names, each name once; `insertField`
keeps that order.
-/

namespace FinalityGadget

inductive Json
  | null
  | bool (b : Bool)
  | integer (n : Int)
  | float (x : Binary64)
  | string (s : String)
  | array (items : List Json)
  | object (fields : List (String × Json))
deriving BEq, Inhabited

namespace Json

/-- The fields with `name` set to `value`. -/
def insertField (name : String) (value : Json) : List (String × Json) → List (String × Json)
  | [] => [(name, value)]
  | (key, old) :: rest =>
    match compare name key with
    | .lt => (name, value) :: (key, old) :: rest
    | .eq => (name, value) :: rest
    | .gt => (key, old) :: insertField name value rest

/-- The object with the given fields; the last of equal names counts. -/
def ofFields (fields : List (String × Json)) : Json :=
  .object (fields.foldl (fun sorted field => insertField field.1 field.2 sorted) [])

/-- The field of an object; `null` counts as absent. -/
def field? (name : String) : Json → Option Json
  | .object fields =>
    match fields.lookup name with
    | some .null | none => none
    | some value => some value
  | _ => none

/-- The integers that a 64-bit field may hold, unsigned or signed. -/
def minInteger : Int := -0x8000000000000000

def maxInteger : Int := Word.maxNat

end Json

end FinalityGadget
