import FinalityGadget.Proofs.Dependence
import FinalityGadget.Proofs.Participants

/-!
# Committed blocks and restarts

At the end of a block its writes are committed, and the next block starts from what is stored and
from the headers retained so far; the gadget may be set up anew at this point. All that is asked is
answered as if every header was applied within a single block: the state of the next block reads as
the one that was committed, and the gadget keeps nothing that does not follow from it.
-/

namespace FinalityGadget

inductive ChainStep
  | header (header : Header)
  /-- The block is committed; the gadget goes on or is set up anew. -/
  | endBlock (restart : Bool)

/-- The headers of a chain, wherever its blocks end. -/
def headersOf (steps : List ChainStep) : List Header :=
  steps.filterMap fun
    | .header header => some header
    | .endBlock _ => none

namespace Node

/-- Commits the writes of the block and opens the next one. -/
def commit (node : Node) : Except Error Node := do
  let (batch, headers) := node.store.finalize
  let db ← (node.db.commit batch).mapError Error.storage
  return { node with store := .ofHeaders headers, db }

/-- Sets the gadget up from what is stored. -/
def restart (node : Node) : Except Error Node := do
  let gadget ← Gadget.init node.gadget.config node.gadget.registry node.db.view
  return { node with gadget }

def perform (node : Node) : ChainStep → Except Error Node
  | .header header => .ok (node.next header)
  | .endBlock restart => do
    let node ← node.commit
    if restart then node.restart else return node

def process (node : Node) (steps : List ChainStep) : Except Error Node :=
  steps.foldlM perform node

/-- Whatever is asked next, two nodes answer alike. -/
structure AnswersLike (a b : Node) : Prop where
  applied : ∀ header, (a.gadget.apply header a.store a.db).verdict =
    (b.gadget.apply header b.store b.db).verdict
  verified : ∀ header, a.gadget.verify header a.store a.db = b.gadget.verify header b.store b.db
  prevoted : a.gadget.prevotedOf a.view = b.gadget.prevotedOf b.view
  marker : Finality.marker a.view = Finality.marker b.view
  ledger : Ledger.load a.view = Ledger.load b.view

end Node

/-! ## States that a gadget can be set up from -/

/-- The records of a state can be read, and go on to be readable when members vote. -/
structure View.Readable (registry : Registry) (view : View) : Prop where
  ledger : ∃ ledger, Ledger.load view = .ok ledger ∧
    ∀ members, registry view = .ok members →
      (ledger.voters.keys.toFinset ∪ participants members).card ≤ Word.maxNat
  marker : ∃ m, Finality.marker view = .ok m

theorem View.Readable.of_records {registry : Registry} {view : View} {ledger : Ledger}
    {m : Option Height} (hledger : Ledger.load view = .ok ledger)
    (hmarker : Finality.marker view = .ok m)
    (hroom : ∀ members, registry view = .ok members →
      ledger.voters.size + members.length ≤ Word.maxNat) : view.Readable registry where
  ledger := by
    refine ⟨ledger, hledger, fun members hmembers => ?_⟩
    have hunion := Finset.card_union_le ledger.voters.keys.toFinset (participants members)
    have hvoters := List.toFinset_card_le ledger.voters.keys
    rw [Std.ExtTreeMap.length_keys] at hvoters
    have hparticipants : (participants members).card ≤ members.length := card_participants_le
    have := hroom members hmembers
    omega
  marker := ⟨m, hmarker⟩

theorem Validator.key_ne_ledger : Validator.key ≠ Ledger.key := by decide +kernel

theorem Validator.key_ne_marker : Validator.key ≠ Finality.key := by decide +kernel

namespace Round

variable {r : Round}

theorem registry_viewAfter (hregistry : r.registry.ReadsOnly {Validator.key}) :
    r.registry r.viewAfter = r.registry r.view := by
  refine hregistry _ _ fun key hkey => ?_
  obtain rfl := Set.mem_singleton_iff.mp hkey
  rcases r.isApplied_or_unchanged with ⟨_, _, _, counted, pruned, happlied⟩ | ⟨hnot, -⟩
  · rw [happlied.viewAfter_eq, if_neg fun h => Validator.key_ne_marker h.2.symm,
      if_neg Validator.key_ne_ledger.symm]
  · rw [viewAfter_of_not_accepted hnot]

/-- No one but the members votes, so the ledger stays small enough to be read. -/
theorem readable_viewAfter (hregistry : r.registry.ReadsOnly {Validator.key})
    (hreadable : r.view.Readable r.registry) : r.viewAfter.Readable r.registry := by
  obtain ⟨⟨before, hload, hroom⟩, m, hmarker⟩ := hreadable
  cases haccepted : r.isAccepted with
  | false =>
      rw [viewAfter_of_not_accepted haccepted]
      exact ⟨⟨before, hload, hroom⟩, m, hmarker⟩
  | true =>
      obtain ⟨synced, ledger, validators, counted, pruned, happlied⟩ := isAccepted_iff.mp haccepted
      obtain rfl : ledger = before := by
        have hread := (Finality.read_eq_ok_iff.mp happlied.read).1
        exact Except.ok.inj (hread.symm.trans hload)
      have hvoters : ∀ a, a ∈ pruned.voters →
          a ∈ ledger.voters.keys.toFinset ∪ participants validators := by
        intro a ha
        rw [(Ledger.isPruned_prune? happlied.prunes).voters] at ha
        rw [Finset.mem_union, List.mem_toFinset, Std.ExtTreeMap.mem_keys]
        rcases happlied.counts_ledger.mem_voters a ha with hold | ⟨rfl, hballot⟩
        · exact .inl hold
        · obtain ⟨ballot, hballot⟩ := Option.isSome_iff_exists.mp hballot
          obtain ⟨validator, hvoter, -⟩ := happlied.ballot?_eq_some hballot
          exact .inr (VotingRules.generator_mem_participants hvoter)
      have hcard := hroom validators happlied.registered
      have hsize := size_le_card_of_mem pruned.voters _ hvoters
      refine ⟨⟨pruned, happlied.load_viewAfter (hsize.trans hcard), fun members hmembers => ?_⟩, ?_⟩
      · rw [registry_viewAfter hregistry, happlied.registered] at hmembers
        obtain rfl := Except.ok.inj hmembers
        refine (Finset.card_le_card (Finset.union_subset ?_ Finset.subset_union_right)).trans hcard
        intro a ha
        exact hvoters a (Std.ExtTreeMap.mem_keys.mp (List.mem_toFinset.mp ha))
      · rw [happlied.marker_viewAfter]
        cases (synced.advance counted).1 with
        | false => exact ⟨m, hmarker⟩
        | true => exact ⟨_, rfl⟩

end Round

/-! ## Ending a block -/

theorem Store.view_commit {db committed : Database} {s : Store}
    (hcommit : db.commit s.pending = .ok committed) :
    (Store.ofHeaders s.headers).view committed = s.view db ∧ committed.poisoned = false := by
  unfold Database.commit at hcommit
  cases hpoisoned : db.poisoned with
  | true => simp [hpoisoned] at hcommit
  | false =>
      rw [hpoisoned] at hcommit
      obtain rfl := Except.ok.inj hcommit
      refine ⟨funext fun key => ?_, rfl⟩
      unfold view Database.view Batch.get?
      simp only [ofHeaders, Batch.empty, Std.ExtTreeMap.getElem?_union, hpoisoned]
      cases s.pending.entries[key]? <;> simp

theorem Gadget.exists_init {config : Config} {registry : Registry} {view : View} {slots : Slots}
    (hvalidators : 0 < config.validators) (hslots : config.slots.toSlots = .ok slots)
    (hreadable : view.Readable registry) : ∃ gadget, init config registry view = .ok gadget := by
  obtain ⟨⟨ledger, hledger, -⟩, m, hmarker⟩ := hreadable
  have hload : Finality.load config.validators config.genesis view = .ok _ :=
    Finality.load_of_records hvalidators hledger hmarker
  exact ⟨_, bind_eq_ok_iff.mpr ⟨_, hload, bind_eq_ok_iff.mpr ⟨slots, hslots, rfl⟩⟩⟩

namespace Node

/-- What every block starts from, and what the gadget is set up with. -/
structure IsSound (fresh : Finality) (registry : Registry) (node : Node) : Prop where
  gadget : node.gadget.Follows fresh registry
  slots : ∃ slots, node.gadget.config.slots.toSlots = .ok slots
  storage : node.db.poisoned = false
  records : node.view.Readable registry

variable {fresh : Finality} {registry : Registry} {node whole : Node}

theorem IsSound.next (h : node.IsSound fresh registry)
    (hregistry : registry.ReadsOnly {Validator.key}) (header : Header) :
    (node.next header).IsSound fresh registry where
  gadget := h.gadget.apply
  slots := by
    obtain ⟨slots, hslots⟩ := h.slots
    refine ⟨slots, ?_⟩
    show (node.gadget.apply header node.store node.db).gadget.config.slots.toSlots = _
    rwa [(Gadget.gadget_apply _ _ _ _).1]
  storage := h.storage
  records := by
    have hround : (node.round header).registry = registry := h.gadget.registry
    have hreadable := Round.readable_viewAfter (r := node.round header)
    rw [hround] at hreadable
    have hview : (node.next header).view = (node.round header).viewAfter := view_next
    rw [hview]
    exact hreadable hregistry h.records

theorem IsSound.commit (h : node.IsSound fresh registry) :
    ∃ after, node.commit = .ok after ∧ after.IsSound fresh registry ∧
      after.store.headers = node.store.headers ∧ after.view = node.view ∧
      after.db.view = node.view := by
  have hcommit : ∃ committed, node.db.commit node.store.pending = .ok committed := by
    unfold Database.commit
    rw [h.storage]
    exact ⟨_, rfl⟩
  obtain ⟨committed, hcommit⟩ := hcommit
  obtain ⟨hview, hstorage⟩ := Store.view_commit hcommit
  let after : Node := ⟨node.gadget, .ofHeaders node.store.headers, committed⟩
  have hafter : after.view = node.view := hview
  refine ⟨after, ?_, ⟨h.gadget, h.slots, hstorage, ?_⟩, rfl, hafter, ?_⟩
  · simp only [Node.commit, Store.finalize, hcommit]
    rfl
  · rw [hafter]
    exact h.records
  · rw [← hafter]
    funext key
    simp [after, Node.view, Store.view, Store.ofHeaders]

theorem IsSound.restart (h : node.IsSound fresh registry) (hview : node.db.view = node.view) :
    ∃ gadget, node.restart = .ok { node with gadget } ∧
      IsSound fresh registry { node with gadget } := by
  obtain ⟨hregistry, -, hconfig, hgenesis⟩ := h.gadget
  obtain ⟨slots, hslots⟩ := h.slots
  have hvalidators : 0 < node.gadget.config.validators := by
    rw [hconfig]
    exact fresh.validators_pos
  obtain ⟨gadget, hinit⟩ := Gadget.exists_init hvalidators hslots h.records
  obtain ⟨hsame, hset, -, hn, hgenesis'⟩ := Gadget.parameters_init hinit
  refine ⟨gadget, ?_, ⟨hset, ⟨?_, ?_⟩, ?_, ?_⟩, ⟨slots, ?_⟩, h.storage, h.records⟩
  · unfold Node.restart
    rw [hview, hregistry, hinit]
    rfl
  · rw [hn, hconfig]
  · rw [hgenesis', hgenesis]
  · rw [hsame, hconfig]
  · rw [hsame, hgenesis]
  · rwa [hsame]

/-! ## Committed and uncommitted runs -/

/-- A node whose blocks are committed, and one that works on a single block that looks alike. -/
structure Matches (fresh : Finality) (registry : Registry) (node whole : Node) : Prop where
  sound : node.IsSound fresh registry
  follows : whole.gadget.Follows fresh registry
  store : node.store.Alike Set.univ node.db whole.db whole.store

namespace Matches

theorem next (h : node.Matches fresh registry whole)
    (hregistry : registry.ReadsOnly {Validator.key}) (header : Header) :
    (node.next header).Matches fresh registry (whole.next header) where
  sound := h.sound.next hregistry header
  follows := h.follows.apply
  store := by
    have hrule := h.sound.gadget.rule.trans h.follows.rule.symm
    have hsettled := (hrule.settled_alike (Set.subset_univ _) registry.readsOnly_univ h.store
      header).2
    show (node.gadget.apply header node.store node.db).store.Alike _ node.db whole.db
      (whole.gadget.apply header whole.store whole.db).store
    rw [Gadget.store_apply, Gadget.store_apply, h.sound.gadget.registry, h.follows.registry]
    exact hsettled

theorem endBlock (h : node.Matches fresh registry whole) (restart : Bool) :
    ∃ after, node.perform (.endBlock restart) = .ok after ∧
      after.Matches fresh registry whole := by
  obtain ⟨after, hcommit, hsound, hheaders, hview, hstored⟩ := h.sound.commit
  have hstore : after.store.Alike Set.univ after.db whole.db whole.store := by
    refine ⟨hheaders.trans h.store.headers, fun key hkey => ?_⟩
    exact (congrFun hview key).trans (h.store.reads key hkey)
  unfold perform
  rw [hcommit]
  cases restart with
  | false => exact ⟨after, rfl, hsound, h.follows, hstore⟩
  | true =>
      obtain ⟨gadget, hrestart, hset⟩ := hsound.restart (hstored.trans hview.symm)
      exact ⟨{ after with gadget }, hrestart, hset, h.follows, hstore⟩

theorem process (h : node.Matches fresh registry whole)
    (hregistry : registry.ReadsOnly {Validator.key}) (steps : List ChainStep) :
    ∃ after, node.process steps = .ok after ∧
      after.Matches fresh registry (whole.run (headersOf steps)) := by
  induction steps generalizing node whole with
  | nil => exact ⟨node, rfl, h⟩
  | cons step rest ih =>
      cases step with
      | header header =>
          obtain ⟨after, hrest, hafter⟩ := ih (h.next hregistry header)
          exact ⟨after, hrest, hafter⟩
      | endBlock restart =>
          obtain ⟨next, hnext, hmatches⟩ := h.endBlock restart
          obtain ⟨after, hrest, hafter⟩ := ih hmatches
          exact ⟨after, bind_eq_ok_iff.mpr ⟨next, hnext, hrest⟩, hafter⟩

theorem answersLike (h : node.Matches fresh registry whole) : node.AnswersLike whole where
  applied header := by
    have hrule := h.sound.gadget.rule.trans h.follows.rule.symm
    have hverdict := (hrule.settled_alike (Set.subset_univ _) registry.readsOnly_univ h.store
      header).1
    calc (node.gadget.apply header node.store node.db).verdict
        = (node.gadget.finality.add header node.store node.db registry).verdict := by
          rw [← h.sound.gadget.registry]
          exact node.verdict_apply header
      _ = (whole.gadget.finality.add header whole.store whole.db registry).verdict := hverdict
      _ = (whole.gadget.apply header whole.store whole.db).verdict := by
          rw [← h.follows.registry]
          exact (whole.verdict_apply header).symm
  verified header :=
    (h.sound.gadget.rule.trans h.follows.rule.symm).verify_eq (Set.subset_univ _) h.store
  prevoted := (h.sound.gadget.rule.trans h.follows.rule.symm).prevotedOf_eq
    (h.store.sameRecords (Set.subset_univ _))
  marker := (h.store.sameRecords (Set.subset_univ _)).marker_eq
  ledger := (h.store.sameRecords (Set.subset_univ _)).load_eq

end Matches

/-- However a chain is cut into blocks that are committed, and wherever the gadget is set up anew,
all blocks can be processed, and all that is asked in between is answered as if every header had
been applied within one block by one gadget. -/
theorem process_answersLike {config : Config} {registry : Registry} {view : View} {ledger : Ledger}
    {m : Option Height} {node : Node} (hinit : Gadget.init config registry view = .ok node.gadget)
    (hregistry : registry.ReadsOnly {Validator.key}) (hstorage : node.db.poisoned = false)
    (hledger : Ledger.load node.view = .ok ledger) (hmarker : Finality.marker node.view = .ok m)
    (hroom : ∀ members, registry node.view = .ok members →
      ledger.voters.size + members.length ≤ Word.maxNat) (steps : List ChainStep) :
    ∃ after, node.process steps = .ok after ∧ after.AnswersLike (node.run (headersOf steps)) := by
  obtain ⟨hconfig, hset, hslots, hn, hgenesis⟩ := Gadget.parameters_init hinit
  have hfollows : node.gadget.Follows node.gadget.finality registry := by
    refine ⟨hset, .refl _, ?_, ?_⟩
    · rw [hconfig, hn]
    · rw [hconfig, hgenesis]
  have hsound : node.IsSound node.gadget.finality registry :=
    ⟨hfollows, ⟨_, hconfig ▸ hslots⟩, hstorage, .of_records hledger hmarker hroom⟩
  have hmatches : node.Matches node.gadget.finality registry node :=
    ⟨hsound, hfollows, .refl _ _ _⟩
  obtain ⟨after, hprocess, hafter⟩ := hmatches.process hregistry steps
  exact ⟨after, hprocess, hafter.answersLike⟩

set_option maxRecDepth 2000 in
/-- Height 1 is finalized by the header of height 2, which a gadget applies that was set up from
the block before. -/
theorem process_answersLike_of_restarted :
    let config : Config := ⟨1, 0, .default⟩
    let store := (Store.ofHeaders (.empty 5)).setValidators [⟨.ofNat 1, true, 0⟩]
    let node : Node :=
      ⟨⟨config, .ofState, ⟨1, by decide, 0, 0, 0⟩, ⟨0, 10, by decide⟩, []⟩, store, .empty⟩
    let steps : List ChainStep :=
      [.header ⟨1, .ofNat 1, .ofNat 0, .ofNat 1, 0, 0, 0, 0⟩, .endBlock true,
        .header ⟨2, .ofNat 2, .ofNat 1, .ofNat 1, 10, 0, 1, 1⟩, .endBlock false]
    Finality.marker (node.run (headersOf steps)).view = .ok (some 1) ∧
      ∃ after, node.process steps = .ok after ∧ after.AnswersLike (node.run (headersOf steps)) := by
  intro config store node steps
  have hinit : Gadget.init config .ofState (Database.view .empty) = .ok node.gadget := by cbv
  have hledger : Ledger.load node.view = .ok .empty := by cbv
  have hmarker : Finality.marker node.view = .ok none := by cbv
  have hmembers : Registry.ofState node.view = .ok [⟨.ofNat 1, true, 0⟩] := by cbv
  refine ⟨by cbv, process_answersLike hinit Registry.readsOnly_ofState rfl hledger hmarker
    (fun members h => ?_) steps⟩
  rw [hmembers] at h
  rw [← Except.ok.inj h]
  decide +kernel

end Node

end FinalityGadget
