import FinalityGadget.Error
import FinalityGadget.Storage.Store

/-!
# The voting ledger

For every retained height the ledger holds the number of prevotes and precommits that it gathered,
and for every validator the highest heights that it prevoted and precommitted. Tallies are words;
a vote that a tally cannot hold has no result.
-/

namespace FinalityGadget

/-- The votes for a height. -/
structure Tally where
  prevotes : Word
  precommits : Word
deriving DecidableEq, Repr

/-- The highest heights that a validator prevoted and precommitted. -/
structure VoteHeights where
  prevoted : Height
  precommitted : Height
deriving DecidableEq, Repr

namespace VoteHeights

/-- The labelled form of vote heights, as it stands in traces. -/
def label (v : VoteHeights) : String :=
  "ValidatorVoteState \x7b max_pre_vote_height: " ++ v.prevoted.label ++
    ", max_pre_commit_height: " ++ v.precommitted.label ++ " \x7d"

end VoteHeights

structure Ledger where
  voters : Std.ExtTreeMap Address VoteHeights
  tallies : Std.ExtTreeMap Height Tally
deriving DecidableEq

namespace Ledger

def empty : Ledger := ⟨∅, ∅⟩

/-- The vote heights of a validator, zero if it never voted. -/
def votesOf (l : Ledger) (address : Address) : VoteHeights := l.voters.getD address ⟨0, 0⟩

def setVotes (l : Ledger) (address : Address) (votes : VoteHeights) : Ledger :=
  { l with voters := l.voters.insert address votes }

/-- The tally of a height, zero if no vote was cast for it. -/
def tally (l : Ledger) (height : Height) : Tally := l.tallies.getD height ⟨0, 0⟩

def setTally (l : Ledger) (height : Height) (tally : Tally) : Ledger :=
  { l with tallies := l.tallies.insert height tally }

@[simp] theorem votesOf_empty (address : Address) : empty.votesOf address = ⟨0, 0⟩ := by
  simp [empty, votesOf]

@[simp] theorem tally_empty (height : Height) : empty.tally height = ⟨0, 0⟩ := by
  simp [empty, tally]

theorem votesOf_setVotes (l : Ledger) (a b : Address) (votes : VoteHeights) :
    (l.setVotes a votes).votesOf b = if a = b then votes else l.votesOf b := by
  simp [setVotes, votesOf, Std.ExtTreeMap.getD_insert, Std.LawfulEqCmp.compare_eq_iff_eq]

theorem tally_setTally (l : Ledger) (h k : Height) (t : Tally) :
    (l.setTally h t).tally k = if h = k then t else l.tally k := by
  simp [setTally, tally, Std.ExtTreeMap.getD_insert, Std.LawfulEqCmp.compare_eq_iff_eq]

@[simp] theorem tally_setVotes (l : Ledger) (address : Address) (votes : VoteHeights)
    (height : Height) : (l.setVotes address votes).tally height = l.tally height := rfl

@[simp] theorem votesOf_setTally (l : Ledger) (height : Height) (t : Tally) (address : Address) :
    (l.setTally height t).votesOf address = l.votesOf address := rfl

/-- Counts a prevote for a height. -/
def prevote? (l : Ledger) (height : Height) : Option Ledger :=
  let tally := l.tally height
  (Word.succ? tally.prevotes).map fun n => l.setTally height { tally with prevotes := n }

/-- Counts a precommit for a height. -/
def precommit? (l : Ledger) (height : Height) : Option Ledger :=
  let tally := l.tally height
  (Word.succ? tally.precommits).map fun n => l.setTally height { tally with precommits := n }

/-- The highest height whose tally passes a test. -/
def highestWhere? (l : Ledger) (test : Tally → Bool) : Option Height :=
  (l.tallies.filter fun _ tally => test tally).maxKey?

def highest? (l : Ledger) : Option Height := l.tallies.maxKey?

/-- Keeps the heights above `highest - maxHeights`. There is no ledger to keep if the first of them
would be past the last height. -/
def prune? (l : Ledger) (maxHeights : Word) : Option Ledger :=
  match l.highest? with
  | none => some l
  | some highest =>
    if highest < maxHeights then some l
    else
      (Height.next? (highest - maxHeights)).map fun first =>
        { l with tallies := l.tallies.filter fun height _ => first ≤ height }

def size (l : Ledger) : Nat := l.tallies.size

def isEmpty (l : Ledger) : Bool := l.tallies.isEmpty

def format : Format Ledger :=
  .via (.pair (.map (.bytes 20) votesFormat) (.map .word tallyFormat))
    (fun l => (l.voters, l.tallies)) (fun (voters, tallies) => { voters, tallies })
where
  votesFormat : Format VoteHeights :=
    .via (.pair .word .word) (fun v => (v.prevoted, v.precommitted)) (fun v => ⟨v.1, v.2⟩)
  tallyFormat : Format Tally :=
    .via (.pair .word .word) (fun t => (t.prevotes, t.precommits)) (fun t => ⟨t.1, t.2⟩)

/-- The key of the ledger in a state. -/
def key : Key := Key.ofName "bft:votingLedger"

/-- The ledger of a state, empty if none was written. -/
def load (view : View) : Except Error Ledger :=
  match view.record? key format with
  | .ok (some l) => .ok l
  | .ok none => .ok empty
  | .error e => .error e

end Ledger

/-- Writes a ledger to the state of a block. -/
def Store.setLedger (s : Store) (ledger : Ledger) : Store :=
  s.set Ledger.key (Ledger.format.encode ledger)

end FinalityGadget
