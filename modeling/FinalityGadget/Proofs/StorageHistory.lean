import FinalityGadget.Proofs.Entries
import FinalityGadget.Storage.Store

/-!
# The storage as a history

Several blocks are processed over one storage: stores are opened, written to, rolled back to any of
their snapshots and finalized, and batches are committed, in any order. All that is read along the
way follows from what was done. A block reads the last of its writes that survive, or else what was
committed last; a snapshot that is restored brings back the writes and headers that survived when it
was taken, and what a block wrote shows nowhere else until its batch is committed.
-/

namespace FinalityGadget

/-- Puts of keys and values, oldest first. -/
abbrev Writes := List (Key × Value)

inductive StorageRequest
  /-- Opens a store under a name, in place of the one that had the name before. -/
  | openStore (store : Nat) (headers : Window)
  | set (store : Nat) (key : Key) (value : Value)
  | append (store : Nat) (header : Header)
  | get (store : Nat) (key : Key)
  | headers (store : Nat)
  | snapshot (store : Nat)
  /-- Restores the snapshot of the store that was taken after `index` others. -/
  | restore (store index : Nat)
  | finalize (store : Nat)
  /-- Commits the batch that was finalized after `index` others. -/
  | commit (index : Nat)
  /-- Commits a batch that is put together from writes. -/
  | commitWrites (writes : Writes)
  /-- Reads the committed data. -/
  | read (key : Key)

inductive StorageAnswer
  | done
  | found (value : Except StorageError (Option Value))
  | headers (headers : Window)
  | finalized (writes : Key → Option Value) (headers : Window)
  | failed (e : StorageError)
  /-- There is no store, snapshot or batch of the name. -/
  | unknown

/-! ## Stores at work -/

/-- A store that was not finalized yet, and its snapshots in the order in which they were taken. -/
structure OpenStore where
  store : Store
  snapshots : List Snapshot

/-- A storage with the stores that are open on it and the batches that were finalized so far. -/
structure SharedStorage where
  db : Database
  stores : Nat → Option OpenStore
  batches : List Batch

namespace Batch

/-- The batch of some writes. -/
def ofWrites (writes : Writes) : Batch :=
  writes.foldl (fun batch write => batch.put write.1 write.2) .empty

end Batch

namespace SharedStorage

/-- A new storage. -/
def fresh : SharedStorage := ⟨.empty, fun _ => none, []⟩

def put (s : SharedStorage) (store : Nat) (o : Option OpenStore) : SharedStorage :=
  { s with stores := fun i => if i = store then o else s.stores i }

def commitBatch (s : SharedStorage) (batch : Batch) : StorageAnswer × SharedStorage :=
  match s.db.commit batch with
  | .ok db => (.done, { s with db })
  | .error e => (.failed e, s)

/-- Meets a request about one of the stores. -/
def withStore (s : SharedStorage) (store : Nat)
    (act : OpenStore → StorageAnswer × SharedStorage) : StorageAnswer × SharedStorage :=
  match s.stores store with
  | some o => act o
  | none => (.unknown, s)

def perform (s : SharedStorage) : StorageRequest → StorageAnswer × SharedStorage
  | .openStore i headers => (.done, s.put i (some ⟨.ofHeaders headers, []⟩))
  | .set i key value => s.withStore i fun o =>
    (.done, s.put i (some { o with store := o.store.set key value }))
  | .append i header => s.withStore i fun o =>
    (.done, s.put i (some { o with store := o.store.appendHeader header }))
  | .get i key => s.withStore i fun o => (.found (o.store.view s.db key), s)
  | .headers i => s.withStore i fun o => (.headers o.store.headers, s)
  | .snapshot i => s.withStore i fun o =>
    (.done, s.put i (some { o with snapshots := o.snapshots ++ [o.store.snapshot] }))
  | .restore i index => s.withStore i fun o =>
    match o.snapshots[index]? with
    | some snapshot => (.done, s.put i (some { o with store := o.store.restore snapshot }))
    | none => (.unknown, s)
  | .finalize i => s.withStore i fun o =>
    let (batch, headers) := o.store.finalize
    (.finalized batch.get? headers, { s.put i none with batches := s.batches ++ [batch] })
  | .commit index =>
    match s.batches[index]? with
    | some batch => s.commitBatch batch
    | none => (.unknown, s)
  | .commitWrites writes => s.commitBatch (.ofWrites writes)
  | .read key => (.found (s.db.view key), s)

def answer (s : SharedStorage) (request : StorageRequest) : StorageAnswer := (s.perform request).1

def run (s : SharedStorage) (requests : List StorageRequest) : SharedStorage :=
  requests.foldl (fun s request => (s.perform request).2) s

def answers : SharedStorage → List StorageRequest → List StorageAnswer
  | _, [] => []
  | s, request :: rest => s.answer request :: answers (s.perform request).2 rest

end SharedStorage

/-! ## Histories -/

/-- What was done to a store and survives. -/
structure Journal where
  /-- The headers that the store was opened with. -/
  initial : Window
  sets : Writes
  /-- The appended headers, oldest first. -/
  appended : List Header

namespace Journal

def headers (j : Journal) : Window := j.appended.foldl .insert j.initial

def set (j : Journal) (key : Key) (value : Value) : Journal :=
  { j with sets := j.sets ++ [(key, value)] }

def append (j : Journal) (header : Header) : Journal :=
  { j with appended := j.appended ++ [header] }

end Journal

/-- The journal of an open store, and what it was when each of its snapshots was taken. -/
structure OpenJournal where
  journal : Journal
  snapshots : List Journal

/-- All that was committed, oldest first, and the journals of the stores. -/
structure Chronicle where
  committed : List Writes
  journals : Nat → Option OpenJournal
  finalized : List Writes

namespace Chronicle

def fresh : Chronicle := ⟨[], fun _ => none, []⟩

/-- The value of a key in the last committed batch that contains it. -/
def value? (c : Chronicle) (key : Key) : Option Value :=
  c.committed.reverse.findSome? fun writes => lastValue? writes key

def put (c : Chronicle) (store : Nat) (o : Option OpenJournal) : Chronicle :=
  { c with journals := fun i => if i = store then o else c.journals i }

def withStore (c : Chronicle) (store : Nat) (act : OpenJournal → StorageAnswer × Chronicle) :
    StorageAnswer × Chronicle :=
  match c.journals store with
  | some o => act o
  | none => (.unknown, c)

/-- Sets and headers are added to the journal of their store, and batches to what was committed. -/
def perform (c : Chronicle) : StorageRequest → StorageAnswer × Chronicle
  | .openStore i headers => (.done, c.put i (some ⟨⟨headers, [], []⟩, []⟩))
  | .set i key value => c.withStore i fun o =>
    (.done, c.put i (some { o with journal := o.journal.set key value }))
  | .append i header => c.withStore i fun o =>
    (.done, c.put i (some { o with journal := o.journal.append header }))
  | .get i key => c.withStore i fun o =>
    (.found (.ok ((lastValue? o.journal.sets key).or (c.value? key))), c)
  | .headers i => c.withStore i fun o => (.headers o.journal.headers, c)
  | .snapshot i => c.withStore i fun o =>
    (.done, c.put i (some { o with snapshots := o.snapshots ++ [o.journal] }))
  | .restore i index => c.withStore i fun o =>
    match o.snapshots[index]? with
    | some journal => (.done, c.put i (some { o with journal }))
    | none => (.unknown, c)
  | .finalize i => c.withStore i fun o =>
    (.finalized (lastValue? o.journal.sets) o.journal.headers,
      { c.put i none with finalized := c.finalized ++ [o.journal.sets] })
  | .commit index =>
    match c.finalized[index]? with
    | some writes => (.done, { c with committed := c.committed ++ [writes] })
    | none => (.unknown, c)
  | .commitWrites writes => (.done, { c with committed := c.committed ++ [writes] })
  | .read key => (.found (.ok (c.value? key)), c)

def run (c : Chronicle) (requests : List StorageRequest) : Chronicle :=
  requests.foldl (fun c request => (c.perform request).2) c

def answers : Chronicle → List StorageRequest → List StorageAnswer
  | _, [] => []
  | c, request :: rest => (c.perform request).1 :: answers (c.perform request).2 rest

end Chronicle

/-! ## A storage is what its history makes it -/

namespace Batch

theorem ofWrites_concat (writes : Writes) (key : Key) (value : Value) :
    ofWrites (writes ++ [(key, value)]) = (ofWrites writes).put key value := by
  simp [ofWrites]

theorem get?_ofWrites (writes : Writes) : (ofWrites writes).get? = lastValue? writes := by
  funext key
  induction writes using List.reverseRecOn with
  | nil => simp [ofWrites]
  | append_singleton writes write ih =>
      rw [ofWrites_concat, get?_put, lastValue?_concat, ih]

end Batch

namespace Journal

/-- The store that a journal is about. -/
def toStore (j : Journal) : Store := ⟨.ofWrites j.sets, j.headers⟩

theorem toStore_set (j : Journal) (key : Key) (value : Value) :
    (j.set key value).toStore = j.toStore.set key value := by
  simp [toStore, set, Store.set, Batch.ofWrites_concat, headers]

theorem toStore_append (j : Journal) (header : Header) :
    (j.append header).toStore = j.toStore.appendHeader header := by
  simp [toStore, append, Store.appendHeader, headers]

end Journal

namespace OpenJournal

def toOpenStore (o : OpenJournal) : OpenStore :=
  ⟨o.journal.toStore, o.snapshots.map fun journal => journal.toStore.snapshot⟩

end OpenJournal

namespace Chronicle

/-- The storage into which batches were committed. -/
def database (committed : List Writes) : Database :=
  ⟨committed.foldl (fun entries writes => entries ∪ (Batch.ofWrites writes).entries) ∅, false⟩

/-- The storage and the stores that a chronicle is about. -/
def toStorage (c : Chronicle) : SharedStorage where
  db := database c.committed
  stores i := (c.journals i).map OpenJournal.toOpenStore
  batches := c.finalized.map Batch.ofWrites

theorem commit_database (committed : List Writes) (writes : Writes) :
    (database committed).commit (.ofWrites writes) = .ok (database (committed ++ [writes])) := by
  simp [Database.commit, database]

theorem view_database (committed : List Writes) (key : Key) :
    (database committed).view key =
      .ok (committed.reverse.findSome? fun writes => lastValue? writes key) := by
  induction committed using List.reverseRecOn with
  | nil => simp [database, Database.view]
  | append_singleton committed writes ih =>
      have hlast : (database (committed ++ [writes])).entries[key]? =
          (lastValue? writes key).or (database committed).entries[key]? := by
        rw [← Batch.get?_ofWrites]
        simp [database, Batch.get?, Std.ExtTreeMap.getElem?_union]
      have hbefore := Except.ok.inj ih
      show Except.ok (database (committed ++ [writes])).entries[key]? = _
      rw [hlast, hbefore, List.reverse_append, List.reverse_singleton, List.singleton_append,
        List.findSome?_cons]
      cases lastValue? writes key with
      | some value => rfl
      | none => rfl

theorem view_toStorage (c : Chronicle) (key : Key) :
    c.toStorage.db.view key = .ok (c.value? key) := view_database c.committed key

theorem view_toStore (c : Chronicle) (j : Journal) (key : Key) :
    j.toStore.view c.toStorage.db key = .ok ((lastValue? j.sets key).or (c.value? key)) := by
  unfold Store.view
  rw [view_toStorage, Journal.toStore, Batch.get?_ofWrites]
  cases lastValue? j.sets key with
  | some value => rfl
  | none => rfl

theorem toStorage_put (c : Chronicle) (i : Nat) (o : Option OpenJournal) :
    (c.put i o).toStorage = c.toStorage.put i (o.map OpenJournal.toOpenStore) := by
  simp only [put, toStorage, SharedStorage.put, SharedStorage.mk.injEq, true_and, and_true]
  funext k
  split
  · rfl
  · rfl

theorem withStore_toStorage {c : Chronicle} {i : Nat}
    {act : OpenStore → StorageAnswer × SharedStorage}
    {record : OpenJournal → StorageAnswer × Chronicle}
    (hact : ∀ o : OpenJournal, act o.toOpenStore = ((record o).1, (record o).2.toStorage)) :
    c.toStorage.withStore i act =
      ((c.withStore i record).1, (c.withStore i record).2.toStorage) := by
  have hstore : c.toStorage.stores i = (c.journals i).map OpenJournal.toOpenStore := rfl
  unfold SharedStorage.withStore withStore
  rw [hstore]
  cases c.journals i with
  | none => rfl
  | some o => exact hact o

theorem commitBatch_toStorage (c : Chronicle) (writes : Writes) :
    c.toStorage.commitBatch (.ofWrites writes) =
      (.done, toStorage { c with committed := c.committed ++ [writes] }) := by
  simp only [SharedStorage.commitBatch, toStorage, commit_database]

/-- Every request is answered as the chronicle answers it, and leaves behind what the chronicle
then describes. -/
theorem perform_toStorage (c : Chronicle) (request : StorageRequest) :
    c.toStorage.perform request = ((c.perform request).1, (c.perform request).2.toStorage) := by
  cases request with
  | openStore i headers =>
      rw [perform, toStorage_put]
      rfl
  | set i key value =>
      refine withStore_toStorage fun o => ?_
      simp only [toStorage_put, Option.map_some, OpenJournal.toOpenStore, Journal.toStore_set]
  | append i header =>
      refine withStore_toStorage fun o => ?_
      simp only [toStorage_put, Option.map_some, OpenJournal.toOpenStore, Journal.toStore_append]
  | get i key =>
      refine withStore_toStorage fun o => ?_
      rw [OpenJournal.toOpenStore, view_toStore]
  | headers i => exact withStore_toStorage fun o => rfl
  | snapshot i =>
      refine withStore_toStorage fun o => ?_
      rw [toStorage_put, Option.map_some]
      simp [OpenJournal.toOpenStore]
  | restore i index =>
      refine withStore_toStorage fun o => ?_
      simp only [OpenJournal.toOpenStore, List.getElem?_map]
      cases o.snapshots[index]? with
      | none => rfl
      | some journal =>
          simp only [Option.map_some, toStorage_put]
          rfl
  | finalize i =>
      refine withStore_toStorage fun o => ?_
      have hclosed := toStorage_put c i none
      have hbatch : o.toOpenStore.store.finalize = (.ofWrites o.journal.sets, o.journal.headers) :=
        rfl
      simp only [hbatch, Batch.get?_ofWrites]
      rw [Option.map_none] at hclosed
      rw [← hclosed]
      simp [toStorage, put]
  | commit index =>
      simp only [SharedStorage.perform, perform]
      have hbatch : c.toStorage.batches[index]? = c.finalized[index]?.map Batch.ofWrites := by
        simp [toStorage]
      rw [hbatch]
      cases c.finalized[index]? with
      | none => rfl
      | some writes => exact commitBatch_toStorage c writes
  | commitWrites writes => exact commitBatch_toStorage c writes
  | read key =>
      simp only [SharedStorage.perform, perform, view_toStorage]

theorem run_toStorage (c : Chronicle) (requests : List StorageRequest) :
    c.toStorage.run requests = (c.run requests).toStorage := by
  induction requests generalizing c with
  | nil => rfl
  | cons request rest ih =>
      show SharedStorage.run (c.toStorage.perform request).2 rest = _
      rw [perform_toStorage, ih]
      rfl

theorem answers_toStorage (c : Chronicle) (requests : List StorageRequest) :
    c.toStorage.answers requests = c.answers requests := by
  induction requests generalizing c with
  | nil => rfl
  | cons request rest ih =>
      show (c.toStorage.perform request).1 :: (c.toStorage.perform request).2.answers rest = _
      rw [perform_toStorage, ih]
      rfl

theorem read_toStorage (c : Chronicle) (key : Key) :
    c.toStorage.answer (.read key) = .found (.ok (c.value? key)) := by
  rw [SharedStorage.answer, perform_toStorage]
  rfl

theorem get_toStorage {c : Chronicle} {i : Nat} {o : OpenJournal} (ho : c.journals i = some o)
    (key : Key) : c.toStorage.answer (.get i key) =
      .found (.ok ((lastValue? o.journal.sets key).or (c.value? key))) := by
  rw [SharedStorage.answer, perform_toStorage]
  simp only [perform, withStore, ho]

end Chronicle

/-! ## What requests leave as it is -/

namespace StorageRequest

/-- Whether a request writes to the storage. -/
def commits : StorageRequest → Bool
  | .commit _ | .commitWrites _ => true
  | _ => false

/-- The store that a request is about. -/
def store? : StorageRequest → Option Nat
  | .openStore i _ | .set i _ _ | .append i _ | .get i _ | .headers i | .snapshot i | .restore i _
  | .finalize i => some i
  | .commit _ | .commitWrites _ | .read _ => none

end StorageRequest

namespace Chronicle

variable {c : Chronicle} {request : StorageRequest} {requests : List StorageRequest} {i : Nat}

/-- What a request changes: the journal of the store that it is about, which may be finalized, or
what was committed. -/
inductive Changes (c : Chronicle) (request : StorageRequest) : Chronicle → Prop
  | nothing : Changes c request c
  | journal (i : Nat) (o : Option OpenJournal) (batches : List Writes)
      (hstore : request.store? = some i) :
      Changes c request { c.put i o with finalized := c.finalized ++ batches }
  | committed (writes : Writes) (hcommits : request.commits = true) :
      Changes c request { c with committed := c.committed ++ [writes] }

theorem Changes.put (c : Chronicle) (o : Option OpenJournal) (hstore : request.store? = some i) :
    c.Changes request (c.put i o) := by
  have hput : c.put i o = { c.put i o with finalized := c.finalized ++ [] } := by
    simp [Chronicle.put]
  rw [hput]
  exact .journal i o [] hstore

theorem Changes.withStore {act : OpenJournal → StorageAnswer × Chronicle}
    (hact : ∀ o, c.Changes request (act o).2) : c.Changes request (c.withStore i act).2 := by
  unfold Chronicle.withStore
  cases c.journals i with
  | none => exact .nothing
  | some o => exact hact o

theorem changes_perform (c : Chronicle) (request : StorageRequest) :
    c.Changes request (c.perform request).2 := by
  cases request with
  | openStore i headers => exact .put c _ rfl
  | set i key value => exact .withStore fun o => .put c _ rfl
  | append i header => exact .withStore fun o => .put c _ rfl
  | get i key => exact .withStore fun o => .nothing
  | headers i => exact .withStore fun o => .nothing
  | snapshot i => exact .withStore fun o => .put c _ rfl
  | restore i index =>
      refine .withStore fun o => ?_
      cases o.snapshots[index]? with
      | none => exact .nothing
      | some journal => exact .put c _ rfl
  | finalize i => exact .withStore fun o => .journal i none [o.journal.sets] rfl
  | commit index =>
      simp only [perform]
      cases c.finalized[index]? with
      | none => exact .nothing
      | some writes => exact .committed writes rfl
  | commitWrites writes =>
      have hcommits : (StorageRequest.commitWrites writes).commits = true := rfl
      exact .committed writes hcommits
  | read key => exact .nothing

variable {d : Chronicle}

theorem Changes.committed_eq (h : c.Changes request d) (hcommits : request.commits = false) :
    d.committed = c.committed := by
  cases h with
  | nothing => rfl
  | journal k o batches hk => rfl
  | committed writes hwrites => simp [hcommits] at hwrites

theorem Changes.journals_eq (h : c.Changes request d) (hstore : request.store? ≠ some i) :
    d.journals i = c.journals i := by
  cases h with
  | nothing => rfl
  | journal k o batches hk => exact if_neg fun heq : i = k => hstore (heq ▸ hk)
  | committed writes hwrites => rfl

theorem Changes.finalized_isPrefix (h : c.Changes request d) : c.finalized <+: d.finalized := by
  cases h with
  | nothing => exact List.prefix_rfl
  | journal k o batches hk => exact List.prefix_append _ _
  | committed writes hwrites => exact List.prefix_rfl

theorem committed_run (hcommits : ∀ r ∈ requests, r.commits = false) :
    (c.run requests).committed = c.committed := by
  induction requests generalizing c with
  | nil => rfl
  | cons request rest ih =>
      have hstep := (changes_perform c request).committed_eq (hcommits request List.mem_cons_self)
      have hrest := ih (c := (c.perform request).2) fun r hr =>
        hcommits r (List.mem_cons_of_mem _ hr)
      exact hrest.trans hstep

theorem journals_run (hstore : ∀ r ∈ requests, r.store? ≠ some i) :
    (c.run requests).journals i = c.journals i := by
  induction requests generalizing c with
  | nil => rfl
  | cons request rest ih =>
      have hstep := (changes_perform c request).journals_eq (hstore request List.mem_cons_self)
      have hrest := ih (c := (c.perform request).2) fun r hr =>
        hstore r (List.mem_cons_of_mem _ hr)
      exact hrest.trans hstep

theorem finalized_run (c : Chronicle) (requests : List StorageRequest) :
    c.finalized <+: (c.run requests).finalized := by
  induction requests generalizing c with
  | nil => exact List.prefix_rfl
  | cons request rest ih =>
      exact (changes_perform c request).finalized_isPrefix.trans (ih (c.perform request).2)

theorem value?_committed (c : Chronicle) (writes : Writes) (key : Key) :
    value? { c with committed := c.committed ++ [writes] } key =
      (lastValue? writes key).or (c.value? key) := by
  simp only [value?, List.reverse_append, List.reverse_singleton, List.singleton_append,
    List.findSome?_cons]
  cases lastValue? writes key with
  | some value => rfl
  | none => rfl

theorem value?_eq_of_committed (hsame : d.committed = c.committed) (key : Key) :
    d.value? key = c.value? key := by
  rw [value?, value?, hsame]

theorem value?_finalized {o : OpenJournal} (ho : c.journals i = some o)
    (later : List StorageRequest) (key : Key) :
    (c.run (.finalize i :: later ++ [.commit c.finalized.length])).value? key =
      (lastValue? o.journal.sets key).or ((c.run (.finalize i :: later)).value? key) := by
  let closed : Chronicle := { c.put i none with finalized := c.finalized ++ [o.journal.sets] }
  have hclosed : (c.perform (.finalize i)).2 = closed := by
    simp only [perform, withStore, ho]
    rfl
  have hrun : c.run (.finalize i :: later) = closed.run later := by
    show run (c.perform (.finalize i)).2 later = _
    rw [hclosed]
  have hbatch : (closed.run later).finalized[c.finalized.length]? = some o.journal.sets := by
    obtain ⟨more, hmore⟩ := finalized_run closed later
    rw [← hmore]
    simp [closed]
  have hcommit : ((closed.run later).perform (.commit c.finalized.length)).2 =
      { closed.run later with committed := (closed.run later).committed ++ [o.journal.sets] } := by
    simp only [perform, hbatch]
  have hall : c.run (.finalize i :: later ++ [.commit c.finalized.length]) =
      ((c.run (.finalize i :: later)).perform (.commit c.finalized.length)).2 := by
    simp [run, List.foldl_append]
  rw [hall, hrun, hcommit, value?_committed]

end Chronicle

namespace SharedStorage

/-- Reads of stores and of the storage give what the history of the requests says, whatever they
were. In particular, committing the batch of a store right after it was finalized shows all that
the store showed; committed later, it shows what the store had set, and the rest of what the store
showed as far as no other batch replaced it. Without a commit the storage reads as before, and so
does every store that no request is about. -/
theorem reads_follow_history :
    (∀ requests, fresh.answers requests = Chronicle.fresh.answers requests) ∧
    ∀ requests, let s := fresh.run requests
      (∀ i o, s.stores i = some o →
        (∀ key, (s.run [.finalize i, .commit s.batches.length]).answer (.read key) =
          s.answer (.get i key)) ∧
        ∀ later key, (o.store.pending.get? key).isSome = true ∨
            (s.run (.finalize i :: later)).answer (.read key) = s.answer (.read key) →
          (s.run (.finalize i :: later ++ [.commit s.batches.length])).answer (.read key) =
            s.answer (.get i key)) ∧
      ∀ later, (∀ r ∈ later, r.commits = false) → ∀ key,
        (s.run later).answer (.read key) = s.answer (.read key) ∧
        ∀ i, (∀ r ∈ later, r.store? ≠ some i) →
          (s.run later).answer (.get i key) = s.answer (.get i key) := by
  refine ⟨Chronicle.answers_toStorage .fresh, fun requests => ?_⟩
  intro s
  obtain ⟨c, hs⟩ : ∃ c : Chronicle, s = c.toStorage := ⟨_, Chronicle.run_toStorage .fresh requests⟩
  rw [hs]
  refine ⟨fun i opened hopened => ?_, fun later hcommits key => ⟨?_, fun i hstore => ?_⟩⟩
  · obtain ⟨o, ho, rfl⟩ := Option.map_eq_some_iff.mp hopened
    have hlength : c.toStorage.batches.length = c.finalized.length := List.length_map _
    have hcommitted : ∀ later key,
        (c.toStorage.run (.finalize i :: later ++ [.commit c.finalized.length])).answer
          (.read key) =
        .found (.ok ((lastValue? o.journal.sets key).or
          ((c.run (.finalize i :: later)).value? key))) := by
      intro later key
      rw [Chronicle.run_toStorage, Chronicle.read_toStorage, Chronicle.value?_finalized ho]
    rw [hlength]
    refine ⟨fun key => ?_, fun later key hkey => ?_⟩
    · have hsame : (c.run [.finalize i]).committed = c.committed :=
        Chronicle.committed_run fun r hr => by
          obtain rfl := List.mem_singleton.mp hr
          rfl
      rw [Chronicle.get_toStorage ho, ← Chronicle.value?_eq_of_committed hsame]
      exact hcommitted [] key
    · rw [hcommitted, Chronicle.get_toStorage ho]
      rcases hkey with hset | hread
      · have hpending : o.toOpenStore.store.pending.get? key = lastValue? o.journal.sets key :=
          congrFun (Batch.get?_ofWrites o.journal.sets) key
        obtain ⟨value, hvalue⟩ := Option.isSome_iff_exists.mp (hpending ▸ hset)
        rw [hvalue]
        rfl
      · rw [Chronicle.run_toStorage, Chronicle.read_toStorage, Chronicle.read_toStorage] at hread
        rw [Except.ok.inj (StorageAnswer.found.inj hread)]
  · rw [Chronicle.run_toStorage, Chronicle.read_toStorage, Chronicle.read_toStorage,
      Chronicle.value?_eq_of_committed (Chronicle.committed_run hcommits)]
  · have hjournal : (c.run later).journals i = c.journals i := Chronicle.journals_run hstore
    have hvalue := Chronicle.value?_eq_of_committed
      (Chronicle.committed_run (c := c) hcommits) key
    simp only [answer, Chronicle.run_toStorage, Chronicle.perform_toStorage, Chronicle.perform,
      Chronicle.withStore, hjournal]
    cases c.journals i with
    | none => rfl
    | some o => rw [hvalue]

/-- Two stores, of which the first one is rolled back twice to its first snapshot, and a batch that
is committed before the one of the first store. -/
theorem reads_follow_history_of_rolledBack :
    let requests : List StorageRequest :=
      [.openStore 0 (.empty 2), .openStore 1 (.empty 2), .set 0 [1] [10], .snapshot 0,
        .set 0 [1] [11], .snapshot 0, .set 0 [2] [12], .restore 0 0, .restore 0 1, .restore 0 0]
    let s := fresh.run requests
    let reads : List StorageRequest := [.get 0 [1], .get 0 [2], .get 1 [1], .read [1]]
    (fresh.answers (requests ++ reads)).drop 10 =
        [.found (.ok (some [10])), .found (.ok none), .found (.ok none), .found (.ok none)] ∧
      (∃ o, s.stores 0 = some o ∧ (o.store.pending.get? [1]).isSome = true) ∧
      (∀ key, (s.run [.finalize 0, .commit 0]).answer (.read key) = s.answer (.get 0 key)) ∧
      (s.run [.finalize 0, .commitWrites [([1], [13])], .commit 0]).answer (.read [1]) =
        s.answer (.get 0 [1]) ∧
      (s.run [.set 0 [3] [14], .finalize 0]).answer (.get 1 [3]) = s.answer (.get 1 [3]) := by
  intro requests s reads
  obtain ⟨hopen, hunchanged⟩ := reads_follow_history.2 requests
  have hstore : s.stores 0 = some
      ⟨⟨.ofWrites [([1], [10])], .empty 2⟩, [⟨.ofWrites [([1], [10])], .empty 2⟩,
        ⟨.ofWrites [([1], [10]), ([1], [11])], .empty 2⟩]⟩ := rfl
  have hset : ((Batch.ofWrites [([1], [10])]).get? [1]).isSome = true := by decide +kernel
  obtain ⟨hcommit, hlater⟩ := hopen 0 _ hstore
  refine ⟨?_, ⟨_, hstore, hset⟩, hcommit, hlater [.commitWrites [([1], [13])]] [1] (.inl hset), ?_⟩
  · rw [reads_follow_history.1]
    rfl
  · refine (hunchanged [.set 0 [3] [14], .finalize 0] ?_ [3]).2 1 ?_
    · decide
    · decide

/-- A store that shows no value for a key is finalized, another one sets the key and is committed,
and then the batch of the first one is, as it was finalized or put together anew. The storage keeps
the value. -/
theorem read_ne_get_of_commit_between :
    let s := fresh.run [.openStore 0 (.empty 2), .set 0 [2] [20]]
    let later : List StorageRequest :=
      [.openStore 1 (.empty 2), .set 1 [1] [13], .finalize 1, .commit 1]
    s.answer (.get 0 [1]) = .found (.ok none) ∧
      (s.run (.finalize 0 :: later ++ [.commit 0])).answer (.read [1]) =
        .found (.ok (some [13])) ∧
      (s.run (.finalize 0 :: later ++ [.commitWrites [([2], [20])]])).answer (.read [1]) =
        .found (.ok (some [13])) := by
  intro s later
  let c := Chronicle.fresh.run [.openStore 0 (.empty 2), .set 0 [2] [20]]
  have hs : s = c.toStorage := Chronicle.run_toStorage .fresh _
  have hread : ∀ last : StorageRequest,
      (s.run (.finalize 0 :: later ++ [last])).answer (.read [1]) =
        .found (.ok ((c.run (.finalize 0 :: later ++ [last])).value? [1])) := by
    intro last
    rw [hs, Chronicle.run_toStorage, Chronicle.read_toStorage]
  refine ⟨?_, hread _, hread _⟩
  rw [hs, Chronicle.get_toStorage rfl]
  rfl

end SharedStorage

end FinalityGadget
