import FinalityGadget.Event
import FinalityGadget.Finality.Ballot

/-!
# Finality

A height is prevoted once a quorum of validators prevoted it, and finalized once a quorum
precommitted it or a higher one. Both heights follow from the records of a state: the voting
ledger and the marker of the finalized height. A `Finality` holds the parameters of the rule and
the heights of the state that it read or wrote last; every header is applied to the records of its
own state.
-/

namespace FinalityGadget

structure Finality where
  /-- The number of active validators. -/
  validators : Word
  validators_pos : 0 < validators
  /-- The height below which the finalized height never lies. -/
  genesis : Height
  finalized : Height
  prevoted : Height
deriving DecidableEq

namespace Finality

/-- The rule for a state without records. -/
def start (validators : Word) (genesis : Height) : Except Error Finality :=
  if h : 0 < validators then .ok ⟨validators, h, genesis, genesis, genesis⟩
  else .error (.invalidConfiguration .noValidators)

/-- The quorum that prevotes and precommits alike have to meet. -/
def quorum (f : Finality) : Quorum := Quorum.ofValidators f.validators

/-- The number of heights below its own that a header may vote for. -/
def reach (f : Finality) : Word := Word.satMul f.validators 3 - 1

/-- The number of heights retained in the ledger, and of headers in the window. -/
def retained (f : Finality) : Word := Word.satMul f.validators 5

def rules (f : Finality) : VotingRules := ⟨f.quorum, f.reach⟩

/-- The key of the finalized height in a state. -/
def key : Key := Key.ofName "bft:finalizedHeight"

/-- The finalized height written to a state, if any. -/
def marker (view : View) : Except Error (Option Height) := view.record? key Format.word

/-- The highest prevoted height of a ledger, or else the finalized height. -/
def prevotedIn (f : Finality) (ledger : Ledger) : Height :=
  (ledger.highestWhere? fun tally => f.quorum.isMet tally.prevotes).getD f.finalized

/-- The highest height of a ledger with a precommit quorum. -/
def precommittedIn? (f : Finality) (ledger : Ledger) : Option Height :=
  ledger.highestWhere? fun tally => f.quorum.isMet tally.precommits

/-- The heights of a state whose ledger is given. -/
def synced (f : Finality) (view : View) (ledger : Ledger) : Except Error Finality := do
  let marker ← marker view
  let synced := { f with finalized := max (marker.getD 0) f.genesis }
  return { synced with prevoted := synced.prevotedIn ledger }

/-- The ledger of a state, and the heights that follow from its records. -/
def read (f : Finality) (view : View) : Except Error (Finality × Ledger) := do
  let ledger ← Ledger.load view
  return (← f.synced view ledger, ledger)

/-- Restores the heights from the records of a state. -/
def load (validators : Word) (genesis : Height) (view : View) : Except Error Finality := do
  let f ← start validators genesis
  let (f, _) ← f.read view
  return f

/-- The report of loading. -/
def loadEvents (f : Finality) : List Event := [.finalityLoaded f.finalized f.prevoted]

/-- The highest prevoted height of a state. -/
def prevotedOf (f : Finality) (view : View) : Except Error Height := do
  let (f, _) ← f.read view
  return f.prevoted

/-- Checks a header against the heights of its state and the headers before it. The claimed prevoted
height counts only once enough headers are retained. -/
def check (f : Finality) (header : Header) (headers : Window) : Except Error Unit :=
  if f.reach.toNat ≤ headers.size ∧ header.prevoted ≠ f.prevoted then
    .error (.wrongPrevoted header.id f.prevoted header.prevoted)
  else
    match headers.lastBy? header.generator with
    | none => .ok ()
    | some previous =>
      match previous.contradiction? header with
      | some contradiction => .error (.contradiction contradiction)
      | none => .ok ()

/-- Checks a header against the state of a block. -/
def verify (f : Finality) (header : Header) (store : Store) (db : Database) :
    Except Error Unit := do
  let (f, _) ← f.read (store.view db)
  f.check header store.headers

/-- Raises the finalized height to the highest one with a precommit quorum, and tells whether that
changed it. The prevoted height follows the ledger. -/
def advance (f : Finality) (ledger : Ledger) : Bool × Finality :=
  let (advanced, raised) : Bool × Finality :=
    match f.precommittedIn? ledger with
    | some height =>
      if f.finalized < height then (true, { f with finalized := height }) else (false, f)
    | none => (false, f)
  (advanced, { raised with prevoted := raised.prevotedIn ledger })

/-- What a header is applied to: the heights, the ledger and the validators of its state. -/
def prepare (f : Finality) (header : Header) (store : Store) (db : Database) (registry : Registry) :
    Except Error (Finality × Ledger × List Validator) := do
  let view := store.view db
  let (f, ledger) ← f.read view
  f.check header store.headers
  return (f, ledger, ← registry view)

end Finality

/-- How applying a header ends. -/
inductive Verdict
  /-- The header was applied; the finalized height if it advanced. -/
  | accepted (advanced : Option Height)
  | rejected (error : Error)
  /-- A tally or a height passes the largest word. -/
  | overflowed
deriving DecidableEq

/-- The outcome of applying a header to the state of a block. -/
structure Addition where
  verdict : Verdict
  finality : Finality
  store : Store
  events : List Event

namespace Counting

/-- The reports of counting the votes of a header. -/
def events (header : Header) : Counting → List Event
  | .abstained .claimNotBelow => [.claimNotBelow header]
  | .abstained .notParticipating => [.notParticipating header]
  | .counted ballot votes _ =>
    trailEvents ballot.trail ++ [.votesCounted header.generator header.id votes]
  | .overflowed trail => trailEvents trail
where
  trailEvents : Option Trail → List Event
    | some (.missing height) => [.historyMissing height header.id]
    | _ => []

/-- Whether votes of the header could be counted. -/
def isCounted : Counting → Bool
  | .counted .. => true
  | _ => false

/-- The ledger after counting, given the one before. -/
def ledger? (before : Ledger) : Counting → Option Ledger
  | .abstained _ => some before
  | .counted _ _ after => some after
  | .overflowed _ => none

end Counting

namespace Finality

/-- Writes the ledger, and the finalized height if it advanced, to the state of a block. -/
def record (f : Finality) (advanced : Bool) (ledger : Ledger) (store : Store) : Store :=
  let store := store.setLedger ledger
  if advanced then store.set key (Format.word.encode f.finalized) else store

def recordEvents (advanced : Bool) (ledger : Ledger) : List Event :=
  Store.setLedgerEvents ledger ++ if advanced then Store.setEvents key else []

/-- Applies a header to the records of a state: checks it, counts its votes, and writes the pruned
ledger and the finalized height if that advanced. Nothing is written unless all of this succeeds.
The header is not yet among those retained. -/
def add (f : Finality) (header : Header) (store : Store) (db : Database) (registry : Registry) :
    Addition :=
  let offered := [Event.headerOffered header]
  match f.prepare header store db registry with
  | .error e => ⟨.rejected e, f, store, offered⟩
  | .ok (synced, ledger, validators) =>
    let counting := synced.rules.count header ledger validators store.headers
    let counted := offered ++ counting.events header
    match counting.ledger? ledger with
    | none => ⟨.overflowed, f, store, counted⟩
    | some ledger =>
      let (advanced, updated) := synced.advance ledger
      match ledger.prune? f.retained with
      | none => ⟨.overflowed, f, store, counted⟩
      | some pruned =>
        let recorded := counted ++ recordEvents advanced pruned
        let store := updated.record advanced pruned store
        if advanced then
          ⟨.accepted (some updated.finalized), updated, store,
            recorded ++ [.finalityAdvanced synced.finalized updated.finalized header]⟩
        else ⟨.accepted none, updated, store, recorded⟩

end Finality

end FinalityGadget
