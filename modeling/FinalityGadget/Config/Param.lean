import FinalityGadget.Config
import FinalityGadget.Json.Typed
import Std.Data.ExtTreeMap

/-!
# Configuration parameters

A configuration is laid out as a map from dotted paths to parameters, each with a description, a
value and a privacy. Such dumps are nested below the name of a part by putting the name before
every path, and written to a file as JSON. A `FlatConfig` keeps the values alone.
-/

namespace FinalityGadget

/-- Who may see a parameter. -/
inductive Privacy
  /-- Only those who know a secret. -/
  | secret
  /-- The users of a node. -/
  | shared
deriving DecidableEq, Repr

namespace Privacy

def name : Privacy → String
  | .secret => "Private"
  | .shared => "Public"

/-- The names in the order in which they are listed to those who gave another. -/
def names : List String := [Privacy.secret.name, Privacy.shared.name]

def ofName? (name : String) : Option Privacy :=
  if name = Privacy.secret.name then some .secret
  else if name = Privacy.shared.name then some .shared
  else none

end Privacy

structure Param where
  description : String
  value : Json
  privacy : Privacy

/-- The values of the parameters of a configuration by path. -/
abbrev FlatConfig := Std.ExtTreeMap String Json

/-- The parameters of a configuration by path. -/
abbrev Dump := Std.ExtTreeMap String Param

namespace Dump

/-- The dump of one parameter. -/
def single (name : String) (param : Param) : Dump := (∅ : Dump).insert name param

/-- Puts the parameters below a part of the given name. -/
def nest (name : String) (dump : Dump) : Dump :=
  dump.foldl (fun nested path param => nested.insert (name ++ "." ++ path) param) ∅

def values (dump : Dump) : FlatConfig := dump.map fun _ param => param.value

end Dump

namespace Param

/-- A parameter in a dump, its keys in the order in which they are written. -/
def toJson (p : Param) : Json :=
  .object [("description", .string p.description), ("value", p.value),
    ("privacy", .string p.privacy.name)]

end Param

def Dump.toJson (dump : Dump) : Json :=
  .object (dump.toList.map fun (path, param) => (path, param.toJson))

namespace SlotConfig

def dump (c : SlotConfig) : Dump :=
  (Dump.single "genesis_timestamp"
      ⟨"Unix time (seconds) at which slot 0 starts.", .ofWord c.genesis, .shared⟩).insert
    "block_time" ⟨"The length (seconds) of a forging slot.", .ofWord c.blockTime.seconds, .shared⟩

def toJson (c : SlotConfig) : Json :=
  .ofFields [("genesis_timestamp", .ofWord c.genesis), ("block_time", .ofWord c.blockTime.seconds)]

end SlotConfig

namespace Config

def dump (c : Config) : Dump :=
  (c.slots.dump.nest "slots").foldl (fun all path param => all.insert path param) <|
    (Dump.single "number_of_validators"
        ⟨"The number of active validators in every round.", .ofWord c.validators, .shared⟩).insert
      "genesis_height"
      ⟨"The finalized height the chain starts from before any vote was counted.",
        .ofWord c.genesis, .shared⟩

def toJson (c : Config) : Json :=
  .ofFields [("number_of_validators", .ofWord c.validators), ("genesis_height", .ofWord c.genesis),
    ("slots", c.slots.toJson)]

end Config

end FinalityGadget
