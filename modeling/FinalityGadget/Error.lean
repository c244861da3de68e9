import FinalityGadget.Contradiction
import FinalityGadget.Storage
import FinalityGadget.Codec

/-!
# Errors

The causes for which the gadget cannot be set up or turns a header down.
-/

namespace FinalityGadget

/-- What a configuration lacks. -/
inductive ConfigurationFault
  | noValidators
  | subSecondBlockTime
deriving DecidableEq, Repr

def ConfigurationFault.message : ConfigurationFault → String
  | .noValidators => "The number of validators must be positive."
  | .subSecondBlockTime => "Block time must be at least one second."

inductive Error
  | invalidConfiguration (fault : ConfigurationFault)
  /-- The prevoted height that a header claims is not the one that the local ledger shows. -/
  | wrongPrevoted (id : BlockId) (expected found : Height)
  | contradiction (c : Contradiction)
  | storage (e : StorageError)
  /-- A record of the gadget cannot be decoded. -/
  | undecodable (e : DecodeError)
  /-- The active validators cannot be told. -/
  | registry (reason : String)
deriving DecidableEq

def Error.message : Error → String
  | .invalidConfiguration fault => "Invalid BFT configuration: " ++ fault.message
  | .wrongPrevoted id expected found =>
    s!"Header {id.display} has max height prevoted {found.toNat}, expected {expected.toNat}."
  | .contradiction c => c.message
  | .storage e => e.message
  | .undecodable e => e.message
  | .registry reason => "Validator registry error: " ++ reason

namespace View

/-- Reads the record at a key, if there is one. -/
def record? {α : Type} (view : View) (key : Key) (format : Format α) : Except Error (Option α) :=
  match view key with
  | .error e => .error (.storage e)
  | .ok none => .ok none
  | .ok (some value) =>
    match format.read value with
    | .ok record => .ok (some record)
    | .error e => .error (.undecodable e)

end View

end FinalityGadget
