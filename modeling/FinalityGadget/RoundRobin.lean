import FinalityGadget.Config
import FinalityGadget.Validator

/-!
# A network in turns

Four validators, active from genesis, that forge in turns from height 1 on: a small network to try
the gadget with.
-/

namespace FinalityGadget.RoundRobin

def size : Word := 4

def validators : List Validator :=
  (List.range size.toNat).map fun i =>
    { address := .ofNat (i + 1), participates := true, activeFrom := 0 }

def config : Config := ⟨size, 0, ⟨0, .ofSeconds 10⟩⟩

/-- The number of headers to retain. -/
def capacity : Nat := 5 * size.toNat

/-- The position, from 1 on, of the validator whose turn a height above genesis is. -/
def turn (height : Height) : Word := (height - 1) % size + 1

/-- The height of the turn before, 0 during the first round. -/
def previousTurn (height : Height) : Height := height.below size

end FinalityGadget.RoundRobin
