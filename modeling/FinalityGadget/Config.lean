import FinalityGadget.Error
import FinalityGadget.Slot

/-!
# Configuration

The parameters that a chain fixes for its gadget: the number of validators, the height from which
votes count, and the timing of the forging slots.
-/

namespace FinalityGadget

structure SlotConfig where
  /-- The Unix time, in seconds, at which slot 0 starts. -/
  genesis : Word
  blockTime : Duration
deriving DecidableEq, Repr

structure Config where
  /-- The number of active validators in every round. -/
  validators : Word
  /-- The finalized height before any vote was counted. -/
  genesis : Height
  slots : SlotConfig
deriving DecidableEq, Repr

namespace SlotConfig

def default : SlotConfig := ⟨0, .ofSeconds 10⟩

/-- The slots of a configuration, whose block time is at least a second. -/
def toSlots (c : SlotConfig) : Except Error Slots :=
  match Slots.ofDuration? c.genesis c.blockTime with
  | some slots => .ok slots
  | none => .error (.invalidConfiguration .subSecondBlockTime)

end SlotConfig

namespace Config

def default : Config := ⟨101, 0, .default⟩

end Config

end FinalityGadget
