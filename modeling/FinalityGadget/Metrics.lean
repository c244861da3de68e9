import FinalityGadget.Binary64
import FinalityGadget.Event

/-!
# Metrics

Counters are words that only grow, apart from wrapping around; gauges are set to any integer,
rounded to a binary fraction. A metric is listed from its first use on, and described once it is
registered.
-/

namespace FinalityGadget

structure Counter where
  name : String
  description : String
  initial : Word
deriving DecidableEq, Repr

structure Gauge where
  name : String
  description : String
deriving DecidableEq, Repr

/-- The metrics used so far, and their descriptions. -/
structure Metrics where
  counters : Std.ExtTreeMap String Word
  gauges : Std.ExtTreeMap String Binary64
  descriptions : Std.ExtTreeMap String String

namespace Binary64

/-- The number nearest to an integer. -/
def ofInt? (n : Int) : Option Binary64 := ofFraction? (n < 0) n.natAbs 1

/-- The number without its fraction. -/
def toInt (x : Binary64) : Int :=
  let (num, den) := x.toFraction
  if x.negative then -(num / den : Nat) else (num / den : Nat)

end Binary64

namespace Metrics

def empty : Metrics := ⟨∅, ∅, ∅⟩

/-- Raises a counter to its initial value and describes it. -/
def registerCounter (m : Metrics) (c : Counter) : Metrics :=
  { m with
    counters := m.counters.insert c.name (max (m.counters.getD c.name 0) c.initial)
    descriptions := m.descriptions.insert c.name c.description }

def registerGauge (m : Metrics) (g : Gauge) : Metrics :=
  { m with
    gauges := m.gauges.insert g.name (m.gauges.getD g.name (.zero false))
    descriptions := m.descriptions.insert g.name g.description }

def increment (m : Metrics) (name : String) (amount : Word) : Metrics :=
  { m with counters := m.counters.insert name (m.counters.getD name 0 + amount) }

/-- Sets a gauge to the number nearest to an integer. -/
def set (m : Metrics) (name : String) (value : Int) : Metrics :=
  match Binary64.ofInt? value with
  | some x => { m with gauges := m.gauges.insert name x }
  | none => m

end Metrics

/-- What the gadget and its storage let the outside know, in order. -/
inductive Signal
  | event (e : Event)
  | registerCounter (c : Counter)
  | registerGauge (g : Gauge)
  | increment (c : Counter) (amount : Word)
  | set (g : Gauge) (value : Word)

namespace Signal

/-- The effect of a signal on the metrics. -/
def record (m : Metrics) : Signal → Metrics
  | .event _ => m
  | .registerCounter c => m.registerCounter c
  | .registerGauge g => m.registerGauge g
  | .increment c amount => m.increment c.name amount
  | .set g value => m.set g.name value.toNat

/-- The event that a signal reports, if it does. -/
def event? : Signal → Option Event
  | .event e => some e
  | _ => none

end Signal

namespace Database

def committedBatches : Counter :=
  ⟨"storage_committed_batches", "Number of write batches committed to the storage", 0⟩

def committedKeys : Counter :=
  ⟨"storage_committed_keys", "Number of keys written by committed write batches", 0⟩

def counters : List Counter := [committedBatches, committedKeys]

def metricNames : List String := counters.map Counter.name

/-- The signals of opening a storage. -/
def openSignals : List Signal := counters.map .registerCounter

/-- The signals of a commit that went through. -/
def commitSignals (batch : Batch) : List Signal :=
  [.event (.batchCommitted batch.size), .increment committedBatches 1,
    .increment committedKeys (UInt64.ofNat batch.size)]

/-- The signals of a commit that broke off before it was counted. -/
def breakOffSignals (batch : Batch) : List Signal := [.event (.batchCommitted batch.size)]

end Database

end FinalityGadget
