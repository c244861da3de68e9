import FinalityGadget.Word

/-!
# Forging slots

Time is cut into slots of equal length from genesis on: slot `n` holds the times from
`genesis + n * blockTime` up to the start of slot `n + 1`.
-/

namespace FinalityGadget

/-- A length of time: whole seconds and nanoseconds below a second. -/
structure Duration where
  seconds : Word
  nanoseconds : Nat
deriving DecidableEq, Repr

namespace Duration

def ofSeconds (seconds : Word) : Duration := ⟨seconds, 0⟩

def ofMilliseconds (n : Word) : Duration := ⟨n / 1000, n.toNat % 1000 * 1000000⟩

end Duration

structure Slots where
  genesis : Word
  /-- The length of a slot in seconds. -/
  blockTime : Word
  blockTime_pos : 0 < blockTime

namespace Slots

/-- Slots whose length is the whole seconds of `blockTime`, unless that is less than a second. -/
def ofDuration? (genesis : Word) (blockTime : Duration) : Option Slots :=
  if h : 0 < blockTime.seconds then some ⟨genesis, blockTime.seconds, h⟩ else none

/-- The slot that holds `time`. Times before genesis belong to slot 0. -/
def number (s : Slots) (time : Word) : Word := Word.satSub time s.genesis / s.blockTime

/-- The first time of a slot, or the largest word if the slot starts later. -/
def start (s : Slots) (slot : Word) : Word :=
  Word.satAdd s.genesis (Word.satMul slot s.blockTime)

def isWithin (s : Slots) (slot time : Word) : Bool := s.genesis ≤ time ∧ s.number time = slot

end Slots

/-- The local view of time that a received block is judged by. -/
structure SlotContext where
  slots : Slots
  /-- The Unix time, in seconds, at which the block was received. -/
  receivedAt : Word

end FinalityGadget
