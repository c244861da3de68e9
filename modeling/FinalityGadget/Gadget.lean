import FinalityGadget.Config
import FinalityGadget.Finality
import FinalityGadget.Metrics

/-!
# The finality gadget

What a block processor works with: for every received block it asks for the fork choice; a block
that it accepts is verified and then applied to the state of the block. Committing that state
keeps the finality records together with the rest of it. Observers receive the finalized height
whenever it advances.
-/

namespace FinalityGadget

structure Gadget where
  config : Config
  registry : Registry
  finality : Finality
  slots : Slots
  /-- What each observer has received since it subscribed, oldest first. -/
  observers : List (List Height)

namespace Gadget

def finalizedHeight : Gauge :=
  ⟨"bft_finalized_height", "The highest height with a precommit quorum"⟩

def maxHeightPrevoted : Gauge :=
  ⟨"bft_max_height_prevoted", "The highest height with a prevote quorum"⟩

def headersApplied : Counter :=
  ⟨"bft_headers_applied", "The number of block headers applied to the voting ledger", 0⟩

def headersRejected : Counter :=
  ⟨"bft_headers_rejected", "The number of block headers rejected by the finality gadget", 0⟩

def finalizedHeightChanges : Counter :=
  ⟨"bft_finalized_height_changes", "The number of times the finalized height advanced", 0⟩

def doubleForgingDetected : Counter :=
  ⟨"bft_double_forging_detected",
    "The number of received blocks double forged by the tip's generator", 0⟩

def gauges : List Gauge := [finalizedHeight, maxHeightPrevoted]

def counters : List Counter :=
  [headersApplied, headersRejected, finalizedHeightChanges, doubleForgingDetected]

def metricNames : List String := gauges.map Gauge.name ++ counters.map Counter.name

def registerSignals : List Signal :=
  gauges.map .registerGauge ++ counters.map .registerCounter

/-- The signals that bring the gauges up to date. -/
def gaugeSignals (f : Finality) : List Signal :=
  [.set finalizedHeight f.finalized, .set maxHeightPrevoted f.prevoted]

/-- Sets up the gadget from the last committed state, without observers. -/
def init (config : Config) (registry : Registry) (view : View) : Except Error Gadget := do
  let finality ← Finality.load config.validators config.genesis view
  let slots ← config.slots.toSlots
  return { config, registry, finality, slots, observers := [] }

/-- The signals of setting up: the metrics are registered even if the gadget then cannot be set
up. -/
def initSignals (config : Config) (view : View) : List Signal :=
  registerSignals ++
    match Finality.load config.validators config.genesis view with
    | .error _ => []
    | .ok finality =>
      (Finality.loadEvents finality).map .event ++
        match config.slots.toSlots with
        | .error _ => []
        | .ok _ => gaugeSignals finality

/-- Adds an observer and returns its position. -/
def subscribe (g : Gadget) : Nat × Gadget :=
  (g.observers.length, { g with observers := g.observers ++ [[]] })

/-- An empty window for as many headers as the ledger retains heights. -/
def newWindow (g : Gadget) : Window := .empty g.finality.retained.toNat

def forkChoice (g : Gadget) (candidate tip : Header) (receivedAt : Word) : ForkStatus :=
  FinalityGadget.forkChoice candidate tip ⟨g.slots, receivedAt⟩

def forkChoiceSignals (candidate tip : Header) : ForkStatus → List Signal
  | .doubleForging =>
    [.increment doubleForgingDetected 1, .event (.doubleForging candidate tip)]
  | status => [.event (.forkChosen candidate.id tip.id status)]

def verify (g : Gadget) (header : Header) (store : Store) (db : Database) : Except Error Unit :=
  g.finality.verify header store db

/-- The outcome of applying a header through the gadget. -/
structure Application where
  verdict : Verdict
  gadget : Gadget
  store : Store
  signals : List Signal

/-- Hands a height to every observer. -/
def notify (g : Gadget) (height : Height) : Gadget :=
  { g with observers := g.observers.map fun received => received ++ [height] }

/-- The observers that are notified of a verdict, in order, each with the height it receives. -/
def notifications (g : Gadget) : Verdict → List (Nat × Height)
  | .accepted (some height) => (List.range g.observers.length).map fun i => (i, height)
  | _ => []

/-- Applies a header to the state of a block and appends it to the recent headers. A header that is
turned down leaves the state as it was. -/
def apply (g : Gadget) (header : Header) (store : Store) (db : Database) : Application :=
  let snapshot := store.snapshot
  let addition := g.finality.add header store db g.registry
  let events := addition.events.map Signal.event
  let applied := { g with finality := addition.finality }
  match addition.verdict with
  | .rejected e =>
    ⟨.rejected e, applied, addition.store.restore snapshot,
      events ++ [.increment headersRejected 1, .event (.headerRejected header e)]⟩
  | .overflowed => ⟨.overflowed, applied, addition.store, events⟩
  | .accepted advanced =>
    let store := addition.store.appendHeader header
    let signals := events ++ .increment headersApplied 1 :: gaugeSignals addition.finality
    match advanced with
    | none => ⟨.accepted none, applied, store, signals⟩
    | some height =>
      ⟨.accepted (some height), applied.notify height, store,
        signals ++ [.increment finalizedHeightChanges 1]⟩

def prevotedOf (g : Gadget) (view : View) : Except Error Height := g.finality.prevotedOf view

/-- Whether a header acknowledges the last block of its generator among the retained ones; a
generator without such a block must claim none. -/
def isCompliant (header : Header) (headers : Window) : Bool :=
  if header.height ≤ header.previouslyForged then false
  else if header.previouslyForged = 0 then (headers.lastBy? header.generator).isNone
  else
    match headers.get? header.previouslyForged with
    | some previous => previous.generator = header.generator
    | none => false

/-- The reward of a block, halved unless its header is compliant. -/
def blockReward (header : Header) (headers : Window) : Word :=
  if isCompliant header headers then header.reward else header.reward / 2

def blockRewardSignals (header : Header) (headers : Window) : List Signal :=
  if isCompliant header headers then [] else [.event (.rewardHalved header)]

/-- Takes the heights of a state over, after blocks were reverted. -/
def reload (g : Gadget) (view : View) : Except Error Gadget := do
  let finality ← Finality.load g.config.validators g.config.genesis view
  return { g with finality }

def reloadSignals (g : Gadget) (view : View) : List Signal :=
  match Finality.load g.config.validators g.config.genesis view with
  | .error _ => []
  | .ok finality =>
    (Finality.loadEvents finality).map .event ++ gaugeSignals finality ++
      [.event (.finalityReloaded g.finality.finalized finality.finalized)]

end Gadget

end FinalityGadget
