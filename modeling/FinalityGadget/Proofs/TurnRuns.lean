import FinalityGadget.Proofs.HonestRuns
import FinalityGadget.Proofs.Turns

/-!
# Finality at a fixed lag

With headers that are forged in turn, the prevoted height follows the tip at a distance of less than
a quorum, and the finalized height at less than two.
-/

namespace FinalityGadget

/-! ## One round -/

/-- The heights after headers of the heights up to `top`. -/
structure Finality.InTurn (q top : Nat) (f : Finality) : Prop where
  finalized : f.finalized.toNat = top + 1 - 2 * q
  prevoted : f.prevoted.toNat = top + 1 - q

/-- The call returns the finalized height as soon as there is one, and the heights follow the
header. -/
structure Round.FinalizesInTurn (q : Nat) (r : Round) : Prop where
  verdict : r.addition.verdict = .accepted (lagging? r.header.height.toNat (2 * q))
  finality : r.addition.finality.InTurn q r.header.height.toNat

section Round

variable {members : List Validator} {n q kept top : Nat} {r : Round} {f synced : Finality}
  {ledger counted pruned : Ledger}

theorem Finality.parameters_of_lt (hbound : f.validators.toNat < 2 ^ 60) :
    f.quorum.votes.toNat = (2 * f.validators.toNat + 2) / 3 ∧
      f.reach.toNat = 3 * f.validators.toNat - 1 ∧ f.retained.toNat = 5 * f.validators.toNat := by
  refine ⟨Quorum.toNat_votes_of_lt hbound, ?_, ?_⟩
  · rw [toNat_reach]
    unfold Word.maxNat
    omega
  · rw [toNat_retained]
    unfold Word.maxNat
    omega

theorem Finality.inTurn_ofRecords (hledger : ledger.InTurn n q kept top) (hq : 0 < q)
    (hqn : q ≤ n) (hkept : 2 * n ≤ kept) (hmax : top ≤ Word.maxNat)
    (hquorum : f.quorum.votes.toNat = q) (hgenesis : f.genesis = 0) :
    (f.ofRecords (lagging? top (2 * q)) ledger).InTurn q top := by
  have hfinalized : (max ((lagging? top (2 * q)).getD 0) f.genesis).toNat = top + 1 - 2 * q := by
    have hzero : (0 : Word).toNat = 0 := rfl
    rw [Word.toNat_max, hgenesis, toNat_lagging? (by omega) hmax, hzero]
    split <;> omega
  exact ⟨hfinalized, hledger.toNat_prevotedIn hq hqn hkept hmax hquorum hfinalized⟩

theorem Ledger.InTurn.advance (hcounted : counted.InTurn n q kept (top + 1)) (hq : 0 < q)
    (hqn : q ≤ n) (hkept : 2 * n ≤ kept) (hmax : top + 1 ≤ Word.maxNat)
    (hquorum : f.quorum.votes.toNat = q) (hfinalized : f.finalized.toNat = top + 1 - 2 * q) :
    (f.advance counted).2.InTurn q (top + 1) ∧
      (if (f.advance counted).1 then some (f.advance counted).2.finalized else none) =
        lagging? (top + 1) (2 * q) := by
  have hhighest : f.precommittedIn? counted = lagging? (top + 1) (2 * q) := by
    rw [Nat.two_mul]
    exact hcounted.highestWhere?_eq hq hqn hkept hmax hquorum .precommit
  have hlagging : ((lagging? (top + 1) (2 * q)).getD 0).toNat =
      if 2 * q ≤ top + 1 then top + 1 + 1 - 2 * q else (0 : Word).toNat :=
    toNat_lagging? (by omega) hmax 0
  have hzero : (0 : Word).toNat = 0 := rfl
  have hraised : (f.advance counted).2.finalized.toNat = top + 1 + 1 - 2 * q := by
    rw [Finality.toNat_finalized_advance, hhighest, hlagging, hfinalized, hzero]
    split <;> omega
  refine ⟨⟨hraised, ?_⟩, ?_⟩
  · have hsame : (f.advance counted).2.quorum = f.quorum := by
      simp only [Finality.quorum, (f.parameters_advance counted).1]
    rw [Finality.prevoted_advance]
    exact hcounted.toNat_prevotedIn hq hqn hkept hmax (hsame ▸ hquorum) hraised
  · cases hadvanced : (f.advance counted).1 with
    | true =>
        have hsome := (Finality.precommittedIn?_of_advance hadvanced).1
        rw [if_pos rfl, ← hsome, hhighest]
    | false =>
        have hstays := Finality.finalized_advance_of_not hadvanced
        rw [if_neg (by simp)]
        unfold lagging?
        rw [if_neg]
        intro hle
        rw [hstays, hfinalized] at hraised
        omega

theorem Ledger.HighestInTurn.prune (hhighest : counted.HighestInTurn members q top)
    (hpruned : counted.IsPruned kept pruned) : pruned.HighestInTurn members q top := by
  intro a k hk hlt hle kind
  rw [hpruned.votesOf]
  exact hhighest a k hk hlt hle kind

/-- What the state of a block reads after headers of the heights up to `top`, and these headers. -/
structure StateInTurn (members : List Validator) (q top : Nat) (view : View) (w : Window) :
    Prop where
  marker : Finality.marker view = .ok (lagging? top (2 * q))
  exists_ledger : ∃ l, Ledger.load view = .ok l ∧
    l.InTurn members.length q (5 * members.length) top ∧ l.HighestInTurn members q top
  headers : w.InTurn members q (5 * members.length) top

theorem Finality.InTurn.check (hmembers : AllParticipate members) (hf : f.InTurn q top)
    {w : Window} (hwindow : w.InTurn members q kept top) {header : Header}
    (hheader : header.InTurn members q) (hheight : header.height.toNat = top + 1) :
    f.check header w = .ok () := by
  refine Finality.check_eq_ok_iff.mpr ⟨fun _ => ?_, fun previous hlast => ?_⟩
  · have hprevoted := hf.prevoted
    have hclaimed := hheader.prevoted
    exact UInt64.toNat_inj.mp (by omega)
  · obtain ⟨⟨hmem, hgenerator⟩, -⟩ := Window.lastBy?_eq_some_iff.mp hlast
    obtain ⟨hprevious, hle⟩ := hwindow.headers previous hmem
    have hlt : previous.height.toNat < header.height.toNat := by omega
    exact (hheader.follows hmembers hprevious hgenerator hlt).contradiction?_eq_none hlt

theorem StateInTurn.exists_read (hstate : StateInTurn members q top r.view r.store.headers)
    (hlength : members.length = r.finality.validators.toNat)
    (hbound : r.finality.validators.toNat < 2 ^ 60) (hq : q = (2 * members.length + 2) / 3)
    (hgenesis : r.finality.genesis = 0) (hmax : top ≤ Word.maxNat) :
    ∃ synced ledger, r.finality.read r.view = .ok (synced, ledger) ∧ synced.InTurn q top := by
  obtain ⟨ledger, hload, hledger, -⟩ := hstate.exists_ledger
  have hpos := r.finality.toNat_validators_pos
  have hquorum := (Finality.parameters_of_lt hbound).1
  rw [← hlength, ← hq] at hquorum
  refine ⟨_, ledger, Finality.read_eq_ok_iff.mpr ⟨hload, _, hstate.marker, rfl⟩, ?_⟩
  exact Finality.inTurn_ofRecords hledger (by omega) (by omega) (by omega) hmax hquorum hgenesis

theorem Round.IsTruthful.inTurn (htruthful : r.IsTruthful)
    (hread : r.finality.read r.view = .ok (synced, ledger)) (hsynced : synced.InTurn q top)
    (hheight : r.header.height.toNat = top + 1)
    (hturn : HasTurn members r.header.generator r.header.height.toNat)
    (hforged : r.header.previouslyForged.toNat = r.header.height.toNat - members.length) :
    r.header.InTurn members q := by
  refine ⟨by omega, hturn, hforged, ?_⟩
  unfold Round.IsTruthful at htruthful
  rw [Finality.prevotedOf_eq hread] at htruthful
  have hprevoted : synced.prevoted = r.header.prevoted := Except.ok.inj htruthful
  rw [← hprevoted, hsynced.prevoted, hheight]

theorem Round.IsApplied.inTurn (hmembers : AllParticipate members)
    (hlength : members.length = r.finality.validators.toNat)
    (hbound : r.finality.validators.toNat < 2 ^ 60) (hq : q = (2 * members.length + 2) / 3)
    (hstate : StateInTurn members q top r.view r.store.headers) (hbefore : synced.InTurn q top)
    (hheader : r.header.InTurn members q) (hheight : r.header.height.toNat = top + 1)
    (happlied : r.IsApplied synced ledger members counted pruned)
    (hwritten : Ledger.load r.viewAfter = .ok pruned) :
    r.FinalizesInTurn q ∧
      StateInTurn members q (top + 1) r.viewAfter (r.store.headers.insert r.header) := by
  obtain ⟨hquorum, hreach, hretained⟩ := Finality.parameters_of_lt hbound
  rw [← hlength] at hquorum hreach hretained
  rw [← hq] at hquorum
  have hpos := hheader.generator.length_pos
  have hmax : top + 1 ≤ Word.maxNat := hheight ▸ Word.toNat_le _
  obtain ⟨hload, m, -, hsynced⟩ := Finality.read_eq_ok_iff.mp happlied.read
  have hrules : synced.rules = r.finality.rules := by
    rw [hsynced]
    rfl
  obtain ⟨loaded, hloaded, hledger, hhighest⟩ := hstate.exists_ledger
  obtain rfl : loaded = ledger := Except.ok.inj (hloaded.symm.trans hload)
  -- The ballot decides the ledger and the vote heights, and the ledger the finalized height.
  obtain ⟨validator, hvoter, hactive⟩ := VotingRules.exists_voter hmembers hheader
  obtain ⟨ballot, hballot, hcast⟩ := happlied.exists_cast_of_voter hvoter
  rw [hrules] at hballot
  have hvotes := VotingRules.mem_votes_iff (by omega) (by omega) hquorum hreach hledger hhighest
    hstate.headers hheader hheight hactive hballot
  have hascending := VotingRules.ascending_votes hballot
  have hisCast := Ledger.isCast_cast? hcast
  have hcounted : counted.InTurn members.length q (5 * members.length + 1) (top + 1) :=
    hledger.adds hpos (by omega) (by omega) (by omega) hisCast.adds
      (fun kind => (hascending kind).nodup) hvotes
  have hturn := hheader.generator
  rw [hheight] at hturn
  have hraised : ∀ kind, ((ballot.raise (loaded.votesOf r.header.generator)).highest kind).toNat =
      top + 1 - kind.lag q := fun kind =>
    Ballot.toNat_highest_raise hpos hascending hmax hvotes kind
      (hhighest _ (top + 1) hturn (by omega) (by omega) kind)
  have hisPruned := Ledger.isPruned_prune? happlied.prunes
  rw [hretained] at hisPruned
  obtain ⟨hafter, hverdict⟩ := hcounted.advance (f := synced) (by omega) (by omega) (by omega)
    hmax (by rw [hsynced]; exact hquorum) hbefore.finalized
  have haddition := happlied.addition_eq
  refine ⟨⟨?_, ?_⟩, ?_, ⟨pruned, hwritten, hcounted.prune hmax hisPruned,
    (hhighest.cast hmembers hturn hisCast hraised).prune hisPruned⟩,
    hstate.headers.insert hheader hheight (by omega)⟩
  · rw [haddition.1, hverdict, hheight]
  · rw [haddition.2.1, hheight]
    exact hafter
  · rw [happlied.marker_viewAfter, hstate.marker, ← hverdict]
    cases hadvanced : (synced.advance counted).1 with
    | true => rfl
    | false =>
        -- The finalized height stays only as long as it is the genesis height.
        have hstays := Finality.finalized_advance_of_not hadvanced
        have hraisedTo := hafter.finalized
        rw [hstays, hbefore.finalized] at hraisedTo
        have hnone : lagging? top (2 * q) = none := by
          unfold lagging?
          rw [if_neg (by omega)]
        rw [hnone]
        rfl

end Round

/-! ## Runs -/

namespace Node

/-- A node without records and the members of its registry, as many as it counts validators. -/
structure StartsTurns (node : Node) (members : List Validator) : Prop where
  fresh : node.IsFresh
  genesis : node.gadget.finality.genesis = 0
  registry : node.gadget.registry = .fixed members
  length : members.length = node.gadget.finality.validators.toNat
  members : AllParticipate members
  bound : node.gadget.finality.validators.toNat < 2 ^ 60

/-- The header of the next height, forged by the member whose turn it is. -/
structure IsNextTurn (node : Node) (members : List Validator) (headers : List Header)
    (header : Header) : Prop where
  height : header.height.toNat = headers.length + 1
  generator : HasTurn members header.generator header.height.toNat
  forged : header.previouslyForged.toNat = header.height.toNat - members.length
  truthful : ((node.run headers).round header).IsTruthful

/-- Headers of heights 1, 2, 3 and so on, each forged in turn. -/
inductive TurnRun (node : Node) (members : List Validator) : (headers : List Header) → Prop
  | nil : TurnRun node members []
  | concat {headers : List Header} {header : Header} (hrun : TurnRun node members headers)
      (hnext : node.IsNextTurn members headers header) :
      TurnRun node members (headers ++ [header])

variable {node : Node} {members : List Validator} {headers : List Header} {header : Header}
  {q : Nat}

theorem TurnRun.length_le (hrun : TurnRun node members headers) :
    headers.length ≤ Word.maxNat := by
  cases hrun with
  | nil => exact Nat.zero_le _
  | @concat headers header hrun hnext =>
      rw [List.length_append, List.length_singleton, ← hnext.height]
      exact Word.toNat_le _

theorem StartsTurns.length_pos (hstart : node.StartsTurns members) : 0 < members.length := by
  rw [hstart.length]
  exact node.gadget.finality.toNat_validators_pos

theorem StartsTurns.inTurn (hstart : node.StartsTurns members) (hq : 0 < q) :
    StateInTurn members q 0 (node.store.view node.db) node.store.headers where
  marker := by
    have hnone : lagging? 0 (2 * q) = none := if_neg (by omega)
    rw [Finality.marker_of_none hstart.fresh.marker, hnone]
  exists_ledger := by
    refine ⟨.empty, Ledger.load_of_none hstart.fresh.ledger, .empty _ _ _,
      fun a k hk hlt hle kind => ?_⟩
    have hzero : ((⟨0, 0⟩ : VoteHeights).highest kind).toNat = 0 := by cases kind <;> rfl
    rw [Ledger.votesOf_empty, hzero]
    omega
  headers := by
    have hretained := (Finality.parameters_of_lt hstart.bound).2.2
    rw [← hstart.length] at hretained
    rw [hstart.fresh.headers, Gadget.newWindow, hretained]
    exact .empty _ _ _

theorem IsNextTurn.inTurn (hstart : node.StartsTurns members)
    (hq : q = (2 * members.length + 2) / 3) (hnext : node.IsNextTurn members headers header)
    (hstate : StateInTurn members q headers.length ((node.run headers).store.view node.db)
      (node.run headers).store.headers) :
    ((node.run headers).round header).FinalizesInTurn q ∧
      StateInTurn members q (headers.length + 1)
        (((node.run headers).next header).store.view node.db)
        ((node.run headers).next header).store.headers := by
  have hvalidators : ((node.run headers).round header).finality.validators =
      node.gadget.finality.validators := parameters_run.1
  have hregistry : ((node.run headers).round header).registry = .fixed members :=
    run_registry.trans hstart.registry
  have hlength := hstart.length
  have hbound := hstart.bound
  rw [← hvalidators] at hlength hbound
  have hmax : headers.length ≤ Word.maxNat := by
    have := Word.toNat_le header.height
    have := hnext.height
    omega
  have hview : ((node.run headers).round header).view = (node.run headers).store.view node.db :=
    view_round
  rw [← hview] at hstate
  obtain ⟨before, read, hread, hbefore⟩ := StateInTurn.exists_read
    (r := (node.run headers).round header) hstate hlength hbound hq
    (parameters_run.2.trans hstart.genesis) hmax
  have hheader : header.InTurn members q :=
    hnext.truthful.inTurn hread hbefore hnext.height hnext.generator hnext.forged
  have haccepted : ((node.run headers).round header).isAccepted = true :=
    isAccepted_of_checked hstart.fresh hstart.registry hstart.length.le hread
      (hbefore.check hstart.members hstate.headers hheader hnext.height)
  obtain ⟨synced, ledger, validators, counted, pruned, happlied⟩ :=
    Round.isAccepted_iff.mp haccepted
  obtain ⟨rfl, rfl⟩ : synced = before ∧ ledger = read :=
    Prod.mk.inj (Except.ok.inj (happlied.read.symm.trans hread))
  obtain rfl := happlied.validators_eq_of_fixed hregistry
  have hwritten : Ledger.load ((node.run headers).round header).viewAfter = .ok pruned := by
    have hregistries : ∀ r ∈ node.rounds headers, r.registry = .fixed members :=
      fun r hr => (registry_of_mem_rounds hr).trans hstart.registry
    refine happlied.load_written (isRun hstart.fresh headers) ?_ hvalidators
      (card_participants_le.trans hstart.length.le)
      (List.forall_mem_append.mpr ⟨hregistries, List.forall_mem_singleton.mpr hregistry⟩)
    rw [hview]
    exact .refl _
  have hviewAfter : ((node.run headers).next header).store.view node.db =
      ((node.run headers).round header).viewAfter := by
    rw [← view_next, run_db]
  rw [hviewAfter, headers_next, if_pos haccepted]
  exact happlied.inTurn hstart.members hlength hbound hq hstate hbefore hheader hnext.height
    hwritten

theorem TurnRun.inTurn (hstart : node.StartsTurns members)
    (hq : q = (2 * members.length + 2) / 3) (hrun : TurnRun node members headers) :
    (∀ r ∈ node.rounds headers, r.FinalizesInTurn q) ∧
      StateInTurn members q headers.length ((node.run headers).store.view node.db)
        (node.run headers).store.headers := by
  have hpos := hstart.length_pos
  induction hrun with
  | nil => exact ⟨by simp [rounds], hstart.inTurn (by omega)⟩
  | @concat headers header hrun hnext ih =>
      obtain ⟨hall, hstate⟩ := ih
      obtain ⟨hlast, hafter⟩ := hnext.inTurn hstart hq hstate
      rw [rounds_concat, run_concat, List.forall_mem_append, List.forall_mem_singleton,
        List.length_append, List.length_singleton]
      exact ⟨⟨hall, hlast⟩, hafter⟩

/-- Members that forge in turn finalize every height, `2q - 1` heights behind the tip, where `q` is
two thirds of them. The ledger retains the last `5n` heights, each with a prevote for every header
from its own on and a precommit for every header from `q` heights later on, up to one a member. -/
theorem turnRun_finalizes (hstart : node.StartsTurns members)
    (hrun : TurnRun node members headers) :
    let n := members.length
    let q := (2 * n + 2) / 3
    let top := headers.length
    let view := (node.run headers).store.view node.db
    (∀ r ∈ node.rounds headers, r.FinalizesInTurn q) ∧
      (∃ ledger, Ledger.load view = .ok ledger ∧
        (∀ h, h ∈ ledger.tallies ↔ 0 < h.toNat ∧ h.toNat ≤ top ∧ top < h.toNat + 5 * n) ∧
        ∀ h, h ∈ ledger.tallies →
          (ledger.tally h).prevotes.toNat = min (top + 1 - h.toNat) n ∧
          (ledger.tally h).precommits.toNat = min (top + 1 - (h.toNat + q)) n) ∧
      (∃ f, Finality.load node.gadget.finality.validators 0 view = .ok f ∧ f.InTurn q top) ∧
      (node.gadget.finality.prevotedOf view).map UInt64.toNat = .ok (top + 1 - q) := by
  intro n q top view
  obtain ⟨hall, hmarker, ⟨ledger, hload, hledger, -⟩, -⟩ := hrun.inTurn hstart rfl
  have hpos := hstart.length_pos
  have hmax := hrun.length_le
  have hquorum := (Finality.parameters_of_lt hstart.bound).1
  rw [← hstart.length] at hquorum
  have hheights : ∀ f : Finality, f.validators = node.gadget.finality.validators →
      f.genesis = 0 → (f.ofRecords (lagging? top (2 * q)) ledger).InTurn q top := by
    intro f hvalidators hgenesis
    refine Finality.inTurn_ofRecords hledger (by omega) (by omega) (by omega) hmax ?_ hgenesis
    rw [Finality.quorum, hvalidators]
    exact hquorum
  refine ⟨hall, ⟨ledger, hload, hledger.mem_iff, fun h hh => ⟨?_, hledger.votes .precommit h hh⟩⟩,
    ⟨_, Finality.load_of_records node.gadget.finality.validators_pos hload hmarker,
      hheights _ rfl rfl⟩, ?_⟩
  · exact hledger.votes .prevote h hh
  · have hread : node.gadget.finality.read view =
        .ok (node.gadget.finality.ofRecords (lagging? top (2 * q)) ledger, ledger) :=
      Finality.read_eq_ok_iff.mpr ⟨hload, _, hmarker, rfl⟩
    rw [Finality.prevotedOf_eq hread]
    exact congrArg _ (hheights _ rfl hstart.genesis).prevoted

/-- Two members, each forging twice: the fourth header finalizes the first one. -/
theorem turnRun_finalizes_of_four :
    let members : List Validator := [⟨.ofNat 1, true, 0⟩, ⟨.ofNat 2, true, 0⟩]
    let node := Node.start 2 (by decide) 0 members
    let headers : List Header :=
      [⟨1, .ofNat 1, .ofNat 0, .ofNat 1, 0, 0, 0, 0⟩,
        ⟨2, .ofNat 2, .ofNat 1, .ofNat 2, 0, 0, 0, 0⟩,
        ⟨3, .ofNat 3, .ofNat 2, .ofNat 1, 0, 0, 1, 1⟩,
        ⟨4, .ofNat 4, .ofNat 3, .ofNat 2, 0, 0, 2, 2⟩]
    let view := (node.run headers).store.view node.db
    node.StartsTurns members ∧ TurnRun node members headers ∧
      (∀ r ∈ node.rounds headers, r.FinalizesInTurn 2) ∧
      (∃ ledger, Ledger.load view = .ok ledger ∧
        (∀ h, h ∈ ledger.tallies ↔ 0 < h.toNat ∧ h.toNat ≤ 4 ∧ 4 < h.toNat + 10) ∧
        ∀ h, h ∈ ledger.tallies →
          (ledger.tally h).prevotes.toNat = min (5 - h.toNat) 2 ∧
          (ledger.tally h).precommits.toNat = min (5 - (h.toNat + 2)) 2) ∧
      (∃ f, Finality.load 2 0 view = .ok f ∧ f.InTurn 2 4) ∧
      (node.gadget.finality.prevotedOf view).map UInt64.toNat = .ok 3 := by
  intro members node headers view
  have hstart : node.StartsTurns members :=
    ⟨isFresh_start, rfl, rfl, rfl, ⟨by decide +kernel, by decide +kernel, by decide +kernel⟩,
      by decide⟩
  have hrun : TurnRun node members headers := by
    refine .concat (.concat (.concat (.concat .nil
      ⟨by decide, by decide +kernel, by decide, ?_⟩)
      ⟨by decide, by decide +kernel, by decide, ?_⟩)
      ⟨by decide, by decide +kernel, by decide, ?_⟩)
      ⟨by decide, by decide +kernel, by decide, ?_⟩
    · unfold Round.IsTruthful
      cbv
    · unfold Round.IsTruthful
      cbv
    · unfold Round.IsTruthful
      cbv
    · unfold Round.IsTruthful
      cbv
  have hquorum : (2 * members.length + 2) / 3 = 2 := by decide
  have hfinalizes := turnRun_finalizes hstart hrun
  simp only [hquorum] at hfinalizes
  exact ⟨hstart, hrun, hfinalizes⟩

end Node

end FinalityGadget
