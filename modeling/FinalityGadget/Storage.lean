import FinalityGadget.Bytes
import Std.Data.ExtTreeMap

/-!
# Storage

The storage maps keys to values, both byte strings. Writes are gathered in a `Batch` and committed
all at once. A commit that breaks off leaves the lock of the storage poisoned: from then on
neither reads nor commits succeed. A `View` is whatever answers reads of keys.
-/

namespace FinalityGadget

abbrev Key := List UInt8

abbrev Value := List UInt8

/-- The key that a name stands for. -/
def Key.ofName (name : String) : Key := name.toUTF8.toList

inductive StorageError
  | lockPoisoned
deriving DecidableEq, Repr

def StorageError.message : StorageError → String
  | .lockPoisoned => "The storage lock was poisoned by a panicking thread."

/-- Read access to a state. -/
abbrev View := Key → Except StorageError (Option Value)

/-- Writes to apply together. A later write of a key replaces an earlier one. -/
structure Batch where
  entries : Std.ExtTreeMap Key Value
deriving DecidableEq

namespace Batch

def empty : Batch := ⟨∅⟩

def put (b : Batch) (key : Key) (value : Value) : Batch := ⟨b.entries.insert key value⟩

def get? (b : Batch) (key : Key) : Option Value := b.entries[key]?

@[simp] theorem get?_empty (key : Key) : empty.get? key = none := by simp [empty, get?]

theorem get?_put (b : Batch) (k key : Key) (value : Value) :
    (b.put k value).get? key = if k = key then some value else b.get? key := by
  simp [put, get?, Std.ExtTreeMap.getElem?_insert, Std.LawfulEqCmp.compare_eq_iff_eq]

def size (b : Batch) : Nat := b.entries.size

def isEmpty (b : Batch) : Bool := b.entries.isEmpty

end Batch

/-- The committed entries, and whether a commit broke off while it held the lock. -/
structure Database where
  entries : Std.ExtTreeMap Key Value
  poisoned : Bool
deriving DecidableEq

namespace Database

def empty : Database := ⟨∅, false⟩

/-- The committed data. -/
def view (db : Database) : View := fun key =>
  if db.poisoned then .error .lockPoisoned else .ok db.entries[key]?

/-- Applies all writes of a batch. -/
def commit (db : Database) (batch : Batch) : Except StorageError Database :=
  if db.poisoned then .error .lockPoisoned
  else .ok { db with entries := db.entries ∪ batch.entries }

/-- A commit that applies its writes and breaks off before it returns. -/
def breakOff (db : Database) (batch : Batch) : Except StorageError Database :=
  (db.commit batch).map fun db => { db with poisoned := true }

end Database

end FinalityGadget
