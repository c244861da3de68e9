import FinalityGadget.Proofs.Tallies

/-!
# Participants

Where the validators are fixed, only those of them vote that take part in consensus: no tally passes
their number. A truthful header claims the prevoted height of the state that it is applied to.
-/

namespace FinalityGadget

/-- The addresses of the members that take part in consensus. -/
def participants (members : List Validator) : Finset Address :=
  ((members.filter fun v => v.participates).map Validator.address).toFinset

/-- The header of a round claims the prevoted height of its state. -/
def Round.IsTruthful (r : Round) : Prop := r.finality.prevotedOf r.view = .ok r.header.prevoted

variable {r : Round} {synced : Finality} {ledger counted pruned : Ledger}
  {validators members : List Validator}

theorem Finality.prevotedOf_eq {f : Finality} {view : View}
    (hread : f.read view = .ok (synced, ledger)) : f.prevotedOf view = .ok synced.prevoted := by
  unfold prevotedOf
  rw [hread]
  rfl

theorem Round.IsTruthful.prevoted_eq (htruthful : r.IsTruthful)
    (happlied : r.IsApplied synced ledger validators counted pruned) :
    r.header.prevoted = synced.prevoted := by
  unfold Round.IsTruthful at htruthful
  rw [Finality.prevotedOf_eq happlied.read] at htruthful
  exact (Except.ok.inj htruthful).symm

theorem VotingRules.generator_mem_participants {header : Header} {validator : Validator}
    (hvoter : voter header members = .ok validator) : header.generator ∈ participants members := by
  obtain ⟨-, hfind, hparticipates⟩ := voter_eq_ok hvoter
  have haddress : validator.address = header.generator := by
    simpa using List.find?_some hfind
  rw [participants, List.mem_toFinset, ← haddress]
  exact List.mem_map_of_mem
    (List.mem_filter.mpr ⟨List.mem_of_find?_eq_some hfind, hparticipates⟩)

theorem Round.generator_mem_participants (hregistry : r.registry = .fixed members)
    (hballot : r.ballot?.isSome = true) : r.header.generator ∈ participants members := by
  obtain ⟨ballot, hballot⟩ := Option.isSome_iff_exists.mp hballot
  obtain ⟨synced, ledger, validators, counted, pruned, validator, happlied, hvoter, -⟩ :=
    Round.exists_cast hballot
  obtain rfl := happlied.validators_eq_of_fixed hregistry
  exact VotingRules.generator_mem_participants hvoter

variable {n : Word} {genesis : Height} {rounds : List Round} {view : View}

theorem votersOf_subset_participants (hregistry : ∀ r ∈ rounds, r.registry = .fixed members)
    {kind : VoteKind} {h : Height} : votersOf rounds kind h ⊆ participants members :=
  votersOf_subset fun r hr => Round.generator_mem_participants (hregistry r hr)

theorem Round.IsApplied.tallied (happlied : r.IsApplied synced ledger validators counted pruned)
    (hrun : Run n genesis rounds view) (hbefore : r.view.SameRecords view)
    (hmembers : (participants members).card ≤ n.toNat)
    (hregistry : ∀ r ∈ rounds, r.registry = .fixed members) : Tallied n rounds ledger := by
  have hcard := hmembers.trans (Word.toNat_le n)
  obtain ⟨loaded, hload, htallied⟩ := exists_tallied hrun hcard fun r hr =>
    Round.generator_mem_participants (hregistry r hr)
  rwa [happlied.ledger_eq hbefore hload]

theorem Round.IsApplied.load_written
    (happlied : r.IsApplied synced ledger validators counted pruned)
    (hrun : Run n genesis rounds view) (hbefore : r.view.SameRecords view)
    (hn : r.finality.validators = n) (hmembers : (participants members).card ≤ n.toNat)
    (hregistry : ∀ r' ∈ rounds ++ [r], r'.registry = .fixed members) :
    Ledger.load r.viewAfter = .ok pruned := by
  have htallied := happlied.tallied hrun hbefore hmembers
    fun r' hr' => hregistry r' (List.mem_append_left _ hr')
  exact (htallied.apply happlied hn (hmembers.trans (Word.toNat_le n))
    fun r' hr' => Round.generator_mem_participants (hregistry r' hr')).2

theorem Round.IsApplied.prevotes_of_verdict
    (happlied : r.IsApplied synced ledger validators counted pruned)
    (htallied : Tallied n rounds ledger) (hn : r.finality.validators = n) {height : Height}
    (hverdict : r.addition.verdict = .accepted (some height)) :
    height ∈ counted.tallies ∧
      (Quorum.ofValidators n).isMet (counted.tally height).prevotes = true := by
  obtain ⟨hmem, hmet⟩ := happlied.precommits_of_verdict hverdict
  have hpos := Quorum.votes_pos r.finality.validators_pos
  refine ⟨hmem, htallied.quorum_counted happlied.counts_ledger hn ?_⟩
  exact Nat.lt_of_lt_of_le hpos (Quorum.isMet_iff.mp hmet)

theorem card_participants_le : (participants members).card ≤ members.length := by
  calc (participants members).card
      ≤ ((members.filter fun v => v.participates).map Validator.address).length :=
        List.toFinset_card_le _
    _ = (members.filter fun v => v.participates).length := List.length_map _
    _ ≤ members.length := List.length_filter_le _ _

/-- Where the validators are fixed, a round is accepted as soon as its header passes the check:
every tally has room for its votes. -/
theorem Round.isAccepted_of_checked (hread : r.finality.read r.view = .ok (synced, ledger))
    (hchecked : synced.check r.header r.store.headers = .ok ())
    (hregistry : r.registry = .fixed members) (hcard : (participants members).card ≤ Word.maxNat)
    (htallied : Tallied n rounds ledger)
    (hregistries : ∀ r ∈ rounds, r.registry = .fixed members) : r.isAccepted = true := by
  have hregistered : r.registry r.view = .ok members := by
    rw [hregistry]
    rfl
  obtain ⟨counted, hcounts⟩ := htallied.exists_counted hcard
    (fun r hr => Round.generator_mem_participants (hregistries r hr)) synced.rules r.store.headers
    fun validator => VotingRules.generator_mem_participants
  obtain ⟨pruned, hpruned⟩ := Ledger.prune?_isSome (l := counted) r.finality.retained_pos
  exact Round.isAccepted_iff.mpr ⟨synced, ledger, members, counted, pruned,
    ⟨hread, hchecked, hregistered, hcounts, hpruned⟩⟩

end FinalityGadget
