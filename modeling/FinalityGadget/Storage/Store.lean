import FinalityGadget.Storage
import FinalityGadget.Window

/-!
# The state of a block

While a block is processed, its writes are kept on top of the committed storage, together with the
recent headers. A snapshot of both can be restored any number of times.
-/

namespace FinalityGadget

/-- The pending writes of a block and the window of headers before it. -/
structure Store where
  pending : Batch
  headers : Window
deriving DecidableEq

/-- A saved state of a store. -/
structure Snapshot where
  pending : Batch
  headers : Window
deriving DecidableEq

namespace Store

def ofHeaders (headers : Window) : Store := ⟨.empty, headers⟩

/-- Reads a pending write, or else what the storage holds. -/
def view (s : Store) (db : Database) : View := fun key =>
  match s.pending.get? key with
  | some value => .ok (some value)
  | none => db.view key

def set (s : Store) (key : Key) (value : Value) : Store :=
  { s with pending := s.pending.put key value }

theorem view_set (s : Store) (db : Database) (k key : Key) (value : Value) :
    (s.set k value).view db key = if k = key then .ok (some value) else s.view db key := by
  by_cases heq : k = key <;> simp [view, set, Batch.get?_put, heq]

def appendHeader (s : Store) (header : Header) : Store :=
  { s with headers := s.headers.insert header }

def snapshot (s : Store) : Snapshot := ⟨s.pending, s.headers⟩

/-- Drops every change made since the snapshot was taken. -/
def restore (_ : Store) (snapshot : Snapshot) : Store := ⟨snapshot.pending, snapshot.headers⟩

theorem restore_snapshot (s t : Store) : t.restore s.snapshot = s := rfl

/-- Ends the block: the writes to commit, and the headers for the next block. -/
def finalize (s : Store) : Batch × Window := (s.pending, s.headers)

end Store

end FinalityGadget
