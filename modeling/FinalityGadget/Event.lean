import FinalityGadget.Error
import FinalityGadget.ForkChoice
import FinalityGadget.Ledger

/-!
# Log events

What the gadget and its storage report while they work, each with the level at which it is reported
and its text.
-/

namespace FinalityGadget

inductive Level
  | trace
  | debug
  | info
  | warn
deriving DecidableEq, Repr

namespace Level

def severity : Level → Nat
  | .trace => 0
  | .debug => 1
  | .info => 2
  | .warn => 3

def name : Level → String
  | .trace => "TRACE"
  | .debug => "DEBUG"
  | .info => "INFO"
  | .warn => "WARN"

end Level

inductive Event
  /-- A block wrote a key of its state. -/
  | keySet (key : Key)
  | ledgerSaved (heights bytes : Nat)
  | votesCounted (generator : Address) (header : BlockId) (votes : VoteHeights)
  | batchCommitted (keys : Nat)
  | headerOffered (header : Header)
  /-- A header is not counted because the height it claims to follow is not below its own. -/
  | claimNotBelow (header : Header)
  /-- A header is not counted because its generator takes no part in consensus. -/
  | notParticipating (header : Header)
  /-- The forging history of a header leaves the retained headers at a height. -/
  | historyMissing (height : Height) (header : BlockId)
  | forkChosen (candidate tip : BlockId) (status : ForkStatus)
  | rewardHalved (header : Header)
  | finalityLoaded (finalized prevoted : Height)
  | finalityReloaded (before after : Height)
  | finalityAdvanced (before after : Height) (header : Header)
  | doubleForging (candidate tip : Header)
  | headerRejected (header : Header) (error : Error)

namespace Event

def level : Event → Level
  | .keySet .. | .ledgerSaved .. | .votesCounted .. => .trace
  | .batchCommitted .. | .headerOffered .. | .claimNotBelow .. | .notParticipating ..
  | .historyMissing .. | .forkChosen .. | .rewardHalved .. => .debug
  | .finalityLoaded .. | .finalityReloaded .. | .finalityAdvanced .. => .info
  | .doubleForging .. | .headerRejected .. => .warn

def message : Event → String
  | .keySet key =>
    "Setting state key [" ++ ", ".intercalate (key.map fun b => toString b.toNat) ++ "]."
  | .ledgerSaved heights bytes => s!"Saving a voting ledger of {heights} heights ({bytes} bytes)."
  | .votesCounted generator header votes =>
    s!"Votes of {generator.display} after header {header.display}: {votes.label}."
  | .batchCommitted keys => s!"Committed a write batch of {keys} keys."
  | .headerOffered h => s!"Adding block header {h.id.display} at height {h.height.toNat}."
  | .claimNotBelow h =>
    s!"Header {h.id.display} at height {h.height.toNat} claims a previously forged height " ++
      s!"{h.previouslyForged.toNat}; not counted."
  | .notParticipating h =>
    s!"Generator {h.generator.display} of header {h.id.display} does not participate in consensus."
  | .historyMissing height header =>
    s!"Could not find the referenced previous header at height {height.toNat} of header " ++
      s!"{header.display}; no height can be precommitted."
  | .forkChosen candidate tip status =>
    s!"Fork choice of block {candidate.display} against tip {tip.display}: {status.name}."
  | .rewardHalved h =>
    s!"Block {h.id.display} at height {h.height.toNat} is not protocol compliant; " ++
      "halving its reward."
  | .finalityLoaded finalized prevoted =>
    s!"Loaded finality manager: finalized height {finalized.toNat}, max height prevoted " ++
      s!"{prevoted.toNat}."
  | .finalityReloaded before after =>
    s!"Reloaded finalized height: {before.toNat} -> {after.toNat}."
  | .finalityAdvanced before after h =>
    s!"FINALIZED_HEIGHT_CHANGED: {before.toNat} -> {after.toNat} by header {h.id.display} at " ++
      s!"height {h.height.toNat}."
  | .doubleForging candidate tip =>
    s!"DOUBLE_FORGING: generator {candidate.generator.display} forged {tip.id.display} and " ++
      s!"{candidate.id.display} at height {candidate.height.toNat}."
  | .headerRejected h error =>
    s!"Rejected block header {h.id.display} at height {h.height.toNat}: {error.message}"

end Event

namespace Store

/-- The report of writing a key. -/
def setEvents (key : Key) : List Event := [.keySet key]

/-- The reports of writing a ledger. -/
def setLedgerEvents (ledger : Ledger) : List Event :=
  .ledgerSaved ledger.size (Ledger.format.encode ledger).length :: setEvents Ledger.key

end Store

end FinalityGadget
