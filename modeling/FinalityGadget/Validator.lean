import FinalityGadget.Error
import FinalityGadget.Storage.Store

/-!
# Validators

The members of the active validator set, and where a state gets them from: a registry answers with
the validators of a state, be they fixed or written to the state itself.
-/

namespace FinalityGadget

structure Validator where
  address : Address
  /-- Headers of other members are never counted. -/
  participates : Bool
  /-- The first height that the votes of the validator count for. -/
  activeFrom : Height
deriving DecidableEq

namespace Validator

def format : Format Validator :=
  .via (.pair (.bytes 20) (.pair .bool .word))
    (fun v => (v.address, v.participates, v.activeFrom))
    (fun (address, participates, activeFrom) => { address, participates, activeFrom })

/-- The key of the active validators in a state. -/
def key : Key := Key.ofName "bft:validators"

def listFormat : Format (List Validator) := .list format

end Validator

/-- Writes the active validators to the state of a block. -/
def Store.setValidators (s : Store) (validators : List Validator) : Store :=
  s.set Validator.key (Validator.listFormat.encode validators)

/-- A source of the active validators of a state. -/
abbrev Registry := View → Except Error (List Validator)

namespace Registry

/-- The same validators in every state. -/
def fixed (validators : List Validator) : Registry := fun _ => .ok validators

/-- The validators written to the state. -/
def ofState : Registry := fun view =>
  match view.record? Validator.key Validator.listFormat with
  | .ok (some validators) => .ok validators
  | .ok none => .error (.registry "No active validator set in the state.")
  | .error e => .error e

end Registry

end FinalityGadget
