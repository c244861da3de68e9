import FinalityGadget.Config
import FinalityGadget.Json.Typed

/-!
# Validation of configurations

There must be a validator, and a slot must last at least a second. Violations are listed with the
path of the parameter that each is about.
-/

namespace FinalityGadget

/-- A rule that a parameter breaks. -/
structure Violation where
  code : String
  message : Option String
  params : List (String × Json)

/-- The violations of a configuration, each with the path of its parameter. -/
abbrev Violations := List (String × Violation)

namespace Duration

/-- A time that is dumped as whole seconds must be at least one second. -/
def violation? (d : Duration) : Option Violation :=
  if d.seconds = 0 then
    some ⟨"sub_second_duration", some "The duration must be at least one second.", []⟩
  else none

def toJson (d : Duration) : Json :=
  .object [("secs", .ofWord d.seconds), ("nanos", .integer d.nanoseconds)]

end Duration

namespace SlotConfig

def violations (c : SlotConfig) : Violations :=
  match c.blockTime.violation? with
  | some v => [("block_time", { v with params := v.params ++ [("value", c.blockTime.toJson)] })]
  | none => []

end SlotConfig

namespace Config

def violations (c : Config) : Violations :=
  let validators :=
    if c.validators < 1 then
      [("number_of_validators",
        Violation.mk "range" none [("min", .ofWord 1), ("value", .ofWord c.validators)])]
    else []
  validators ++ c.slots.violations.map fun (path, v) => ("slots." ++ path, v)

end Config

end FinalityGadget
