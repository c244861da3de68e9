import FinalityGadget.Finality.Trail
import FinalityGadget.Ledger
import FinalityGadget.Quorum
import FinalityGadget.Validator

/-!
# Ballots

A header votes on behalf of its generator: it prevotes every height that it acknowledges and
precommits every lower height that already has a prevote quorum. A height is voted for at most
once, within reach of the header, and from the height on at which the validator is active.
-/

namespace FinalityGadget

/-- The rules of voting: the quorum of prevotes that a precommit needs, and the number of heights
below its own that a header may vote for. -/
structure VotingRules where
  quorum : Quorum
  reach : Word
deriving DecidableEq, Repr

/-- The votes of a header. -/
structure Ballot where
  /-- The history of the header, unless its generator has precommitted the last height. -/
  trail : Option Trail
  precommits : List Height
  prevotes : List Height
deriving DecidableEq, Repr

/-- Why a header casts no ballot. -/
inductive Abstention
  /-- The header claims to follow a height that is not below its own. -/
  | claimNotBelow
  /-- The generator takes no part in consensus. -/
  | notParticipating
deriving DecidableEq, Repr

namespace VotingRules

/-- The lowest height that a header may vote for. -/
def lowest (rules : VotingRules) (header : Header) : Height := header.height.below rules.reach

/-- The heights that a header precommits: those from a floor on, below its own, that have a prevote
quorum in the ledger. -/
def precommitsFrom (rules : VotingRules) (header : Header) (ledger : Ledger) (floor : Height) :
    List Height :=
  (floor.upTo header.height).toList.filter fun h => rules.quorum.isMet (ledger.tally h).prevotes

/-- The ballot of a header, unless a height that bounds it has none above. -/
def ballot? (rules : VotingRules) (header : Header) (validator : Validator) (ledger : Ledger)
    (headers : Window) : Option Ballot := do
  let votes := ledger.votesOf header.generator
  let lowest := max (rules.lowest header) validator.activeFrom
  let (trail, precommits) ←
    match votes.precommitted.next? with
    | none => some (none, [])
    | some next => do
      let trail := header.trail rules.reach headers
      let floor ← header.precommitFloor? rules.reach trail
      some (some trail, rules.precommitsFrom header ledger (max (max lowest floor) next))
  let prevotes ←
    match votes.prevoted.next? with
    | none => some []
    | some next => do
      let acknowledged ← header.previouslyForged.next?
      some ((max (max lowest acknowledged) next).through header.height).toList
  return { trail, precommits, prevotes }

/-- The validator on whose behalf a header votes: the first listed with the address of its
generator. -/
def voter (header : Header) (validators : List Validator) : Except Abstention Validator :=
  if header.height ≤ header.previouslyForged then .error .claimNotBelow
  else
    match validators.find? fun v => v.address = header.generator with
    | some v => if v.participates then .ok v else .error .notParticipating
    | none => .error .notParticipating

end VotingRules

namespace Ballot

/-- The vote heights of a validator after it cast a ballot. -/
def raise (ballot : Ballot) (votes : VoteHeights) : VoteHeights where
  prevoted := ballot.prevotes.getLast?.getD votes.prevoted
  precommitted := ballot.precommits.getLast?.getD votes.precommitted

end Ballot

/-- Counts a ballot, unless a tally cannot hold one of its votes. -/
def Ledger.cast? (ledger : Ledger) (generator : Address) (ballot : Ballot) : Option Ledger := do
  let counted ← ballot.precommits.foldlM Ledger.precommit? ledger
  let counted ← ballot.prevotes.foldlM Ledger.prevote? counted
  return counted.setVotes generator (ballot.raise (ledger.votesOf generator))

/-- What counting the votes of a header comes to. -/
inductive Counting
  | abstained (reason : Abstention)
  /-- The ballot that was cast, the vote heights of the generator and the ledger after it. -/
  | counted (ballot : Ballot) (votes : VoteHeights) (ledger : Ledger)
  /-- A tally or a height passes the largest word. -/
  | overflowed (trail : Option Trail)
deriving DecidableEq

namespace VotingRules

/-- Counts the votes of a header in the ledger. -/
def count (rules : VotingRules) (header : Header) (ledger : Ledger) (validators : List Validator)
    (headers : Window) : Counting :=
  match voter header validators with
  | .error reason => .abstained reason
  | .ok validator =>
    match rules.ballot? header validator ledger headers with
    | none => .overflowed none
    | some ballot =>
      match ledger.cast? header.generator ballot with
      | none => .overflowed ballot.trail
      | some counted => .counted ballot (counted.votesOf header.generator) counted

end VotingRules

end FinalityGadget
