import FinalityGadget.Config.File
import FinalityGadget.Config.Tree
import FinalityGadget.Config.Validation

/-!
# Loading configurations

A configuration is loaded from the values of a dump or from a file, with single values replaced, and
then validated.
-/

namespace FinalityGadget

/-- Why a configuration cannot be loaded. -/
inductive LoadError
  | noFile
  /-- The text of a file is not JSON. -/
  | malformed (e : Json.SyntaxError)
  | unreadable (e : Json.ReadError)
  | collision (path : String)
  | invalid (violations : Violations)

namespace LoadError

def message? : LoadError → Option String
  | .noFile => some "No such file or directory (os error 2)"
  | .malformed _ => none
  | .unreadable e => some e.message
  | .collision path => some ("Param path " ++ path ++ " collides with a param of a parent config.")
  | .invalid _ => none

end LoadError

namespace FlatConfig

/-- The values in a file, of which the text is given if it exists. -/
def ofFile (text : Option String) : Except LoadError FlatConfig :=
  match text with
  | none => .error .noFile
  | some text =>
    match Dump.ofText text with
    | .ok dump => .ok dump.values
    | .error (.syntaxFault e) => .error (.malformed e)
    | .error (.readFault e) => .error (.unreadable e)

/-- The tree of a flat configuration. -/
def toTree (flat : FlatConfig) : Except LoadError Json := flat.tree.mapError .collision

/-- Reads a type from the tree of a flat configuration. -/
def load {α : Type} (flat : FlatConfig) (read : Json → Except Json.ReadError α) :
    Except LoadError α := do
  let tree ← flat.toTree
  (read tree).mapError .unreadable

end FlatConfig

namespace SlotConfig

def reader : Json.RecordReader SlotConfig :=
  (Json.RecordReader.pure fun genesis seconds => ⟨genesis, .ofSeconds seconds⟩)
    |>.field "genesis_timestamp" Json.readWord
    |>.field "block_time" Json.readWord

def ofJson : Json → Except Json.ReadError SlotConfig := reader.read "SlotsConfig"

def load (flat : FlatConfig) : Except LoadError SlotConfig := flat.load ofJson

def loadValid (flat : FlatConfig) : Except LoadError SlotConfig := do
  let c ← load flat
  if c.violations.isEmpty then return c else .error (.invalid c.violations)

end SlotConfig

namespace Config

def reader : Json.RecordReader Config :=
  (Json.RecordReader.pure Config.mk)
    |>.field "number_of_validators" Json.readWord
    |>.field "genesis_height" Json.readWord
    |>.field "slots" SlotConfig.ofJson

def ofJson : Json → Except Json.ReadError Config := reader.read "BftConfig"

def load (flat : FlatConfig) : Except LoadError Config := flat.load ofJson

def loadValid (flat : FlatConfig) : Except LoadError Config := do
  let c ← load flat
  if c.violations.isEmpty then return c else .error (.invalid c.violations)

end Config

end FinalityGadget
