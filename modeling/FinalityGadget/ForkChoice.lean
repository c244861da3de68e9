import FinalityGadget.Header
import FinalityGadget.Slot

/-!
# Fork choice

How a received block relates to the tip of the local chain. The rules are tried in the order in
which the statuses are listed; the first that applies decides.
-/

namespace FinalityGadget

inductive ForkStatus
  /-- The block extends the tip. -/
  | validBlock
  /-- The block is the tip. -/
  | identicalBlock
  /-- The generator of the tip forged another block at the same height. -/
  | doubleForging
  /-- A competing block at the height of the tip wins against it. -/
  | tieBreak
  /-- The block belongs to a chain with more finality weight. -/
  | differentChain
  | discard
deriving DecidableEq, Repr

namespace ForkStatus

def name : ForkStatus → String
  | .validBlock => "ValidBlock"
  | .identicalBlock => "IdenticalBlock"
  | .doubleForging => "DoubleForging"
  | .tieBreak => "TieBreak"
  | .differentChain => "DifferentChain"
  | .discard => "Discard"

end ForkStatus

namespace Header

def extendsTip (candidate tip : Header) : Bool :=
  candidate.previous = tip.id ∧ tip.height.next? = some candidate.height

def isDoubleForging (candidate tip : Header) : Bool :=
  candidate.height = tip.height ∧ candidate.generator = tip.generator

/-- Of two blocks of different generators on one parent with equal claims, the one with the
smaller id wins, provided it was received within its own slot. -/
def winsTie (candidate tip : Header) (context : SlotContext) : Bool :=
  candidate.height = tip.height ∧ candidate.previous = tip.previous ∧
    candidate.prevoted = tip.prevoted ∧ candidate.generator ≠ tip.generator ∧
    context.slots.isWithin (context.slots.number candidate.timestamp) context.receivedAt ∧
    compare candidate.id tip.id = .lt

/-- A chain weighs more if its prevoted height is higher, or equal with a higher block. -/
def outweighs (candidate tip : Header) : Bool :=
  tip.prevoted < candidate.prevoted ∨
    (tip.prevoted = candidate.prevoted ∧ tip.height < candidate.height)

end Header

def forkChoice (candidate tip : Header) (context : SlotContext) : ForkStatus :=
  if candidate.extendsTip tip then .validBlock
  else if candidate.id = tip.id then .identicalBlock
  else if candidate.isDoubleForging tip then .doubleForging
  else if candidate.winsTie tip context then .tieBreak
  else if candidate.outweighs tip then .differentChain
  else .discard

end FinalityGadget
