import FinalityGadget.Proofs.Run

/-!
# Tallies are exact

A validator votes only above the heights that it voted for, and these are never forgotten, so it
votes for a height at most once. The highest height of the ledger never falls, and every height that
was voted for and then dropped lies a whole window below it: it cannot come back with the votes of
only some of its voters. What is stored for a height is therefore the number of its voters.
-/

namespace FinalityGadget

/-- The validator that a vote is credited to, and the height that it is for. -/
structure Vote where
  voter : Address
  height : Height
deriving DecidableEq

/-- The votes of a kind that a round counts. -/
def Round.votes (r : Round) (kind : VoteKind) : List Vote :=
  (r.heights kind).map fun h => ⟨r.header.generator, h⟩

/-- The votes of a kind that are counted over some rounds. -/
def votesCast (rounds : List Round) (kind : VoteKind) : List Vote :=
  rounds.flatMap fun r => r.votes kind

/-- The validators credited with a vote of a kind for a height. -/
def votersOf (rounds : List Round) (kind : VoteKind) (height : Height) : Finset Address :=
  (((votesCast rounds kind).filter fun v => v.height = height).map Vote.voter).toFinset

/-- The validators on whose behalf some rounds count ballots. -/
def countedVoters (rounds : List Round) : Finset Address :=
  ((rounds.filter fun r => r.ballot?.isSome).map fun r => r.header.generator).toFinset

variable {rounds : List Round} {r : Round} {kind : VoteKind} {h : Height}

theorem mem_countedVoters (hr : r ∈ rounds) (hballot : r.ballot?.isSome = true) :
    r.header.generator ∈ countedVoters rounds := by
  rw [countedVoters, List.mem_toFinset]
  exact List.mem_map_of_mem (List.mem_filter.mpr ⟨hr, hballot⟩)

theorem card_countedVoters_le : (countedVoters rounds).card ≤ rounds.length := by
  calc (countedVoters rounds).card
      ≤ ((rounds.filter fun r => r.ballot?.isSome).map fun r => r.header.generator).length :=
        List.toFinset_card_le _
    _ = (rounds.filter fun r => r.ballot?.isSome).length := List.length_map _
    _ ≤ rounds.length := List.length_filter_le _ _

theorem mem_votes {v : Vote} :
    v ∈ r.votes kind ↔ v.voter = r.header.generator ∧ v.height ∈ r.heights kind := by
  unfold Round.votes
  rw [List.mem_map]
  constructor
  · rintro ⟨height, hheight, rfl⟩
    exact ⟨rfl, hheight⟩
  · rintro ⟨hvoter, hheight⟩
    exact ⟨v.height, hheight, by rw [← hvoter]⟩

theorem mem_votesCast {v : Vote} :
    v ∈ votesCast rounds kind ↔
      ∃ r ∈ rounds, v.voter = r.header.generator ∧ v.height ∈ r.heights kind := by
  unfold votesCast
  simp only [List.mem_flatMap, mem_votes]

theorem mem_votersOf {a : Address} :
    a ∈ votersOf rounds kind h ↔ ∃ r ∈ rounds, a = r.header.generator ∧ h ∈ r.heights kind := by
  have hvote : a ∈ votersOf rounds kind h ↔ ⟨a, h⟩ ∈ votesCast rounds kind := by
    unfold votersOf
    rw [List.mem_toFinset, List.mem_map]
    constructor
    · rintro ⟨v, hv, rfl⟩
      obtain ⟨hcast, hheight⟩ := List.mem_filter.mp hv
      have heq : v.height = h := by simpa using hheight
      rwa [← heq]
    · intro hcast
      exact ⟨⟨a, h⟩, List.mem_filter.mpr ⟨hcast, by simp⟩, rfl⟩
  rw [hvote, mem_votesCast]

theorem votersOf_subset {voters : Finset Address}
    (hvoters : ∀ r ∈ rounds, r.ballot?.isSome = true → r.header.generator ∈ voters) :
    votersOf rounds kind h ⊆ voters := by
  intro v hv
  obtain ⟨r, hr, rfl, hh⟩ := mem_votersOf.mp hv
  obtain ⟨ballot, hballot, -⟩ := Round.exists_ballot?_of_mem hh
  exact hvoters r hr (by rw [hballot]; rfl)

theorem votersOf_subset_concat : votersOf rounds kind h ⊆ votersOf (rounds ++ [r]) kind h := by
  intro v hv
  obtain ⟨r', hr', hvoter⟩ := mem_votersOf.mp hv
  exact mem_votersOf.mpr ⟨r', List.mem_append_left _ hr', hvoter⟩

theorem votesCast_concat :
    votesCast (rounds ++ [r]) kind = votesCast rounds kind ++ r.votes kind := by
  simp [votesCast]

def numVotes (rounds : List Round) (kind : VoteKind) (height : Height) : Nat :=
  (votesCast rounds kind).countP fun v => v.height = height

theorem numVotes_concat :
    numVotes (rounds ++ [r]) kind h = numVotes rounds kind h + (r.heights kind).count h := by
  unfold numVotes
  rw [votesCast_concat, List.countP_append]
  congr 1
  unfold Round.votes
  rw [List.countP_map, List.count]
  rfl

theorem exists_vote_of_numVotes_pos (hpos : 0 < numVotes rounds kind h) :
    ∃ v ∈ votesCast rounds kind, v.height = h := by
  obtain ⟨v, hv, heq⟩ := List.countP_pos_iff.mp hpos
  exact ⟨v, hv, by simpa using heq⟩

theorem card_votersOf (hnodup : (votesCast rounds kind).Nodup) :
    (votersOf rounds kind h).card = numVotes rounds kind h := by
  unfold votersOf numVotes
  rw [List.countP_eq_length_filter, List.toFinset_card_of_nodup, List.length_map]
  refine List.Nodup.map_on ?_ (hnodup.filter _)
  intro v hv w hw hvoter
  have hvHeight : v.height = h := by simpa using (List.mem_filter.mp hv).2
  have hwHeight : w.height = h := by simpa using (List.mem_filter.mp hw).2
  cases v
  cases w
  simp_all

/-! ## The invariant -/

/-- What the ledger after some rounds of `n` validators tells about them. -/
structure Tallied (n : Word) (rounds : List Round) (ledger : Ledger) : Prop where
  nodup : ∀ kind, (votesCast rounds kind).Nodup
  /-- No validator voted above its vote heights. -/
  le_highest : ∀ kind, ∀ v ∈ votesCast rounds kind,
    v.height.toNat ≤ ((ledger.votesOf v.voter).highest kind).toNat
  votes : ∀ kind h, h ∈ ledger.tallies →
    ((ledger.tally h).votes kind).toNat = numVotes rounds kind h
  within : ∀ h, h ∈ ledger.tallies → ∀ k, k ∈ ledger.tallies →
    k.toNat < h.toNat + (Word.satMul n 5).toNat
  /-- A height that was voted for is in the ledger, or a whole window below one that is. -/
  dropped : ∀ kind, ∀ v ∈ votesCast rounds kind, v.height ∈ ledger.tallies ∨
    ∃ k, k ∈ ledger.tallies ∧ v.height.toNat + (Word.satMul n 5).toNat ≤ k.toNat
  quorum : ∀ h, 0 < ((ledger.tally h).votes .precommit).toNat →
    (Quorum.ofValidators n).isMet (ledger.tally h).prevotes = true
  voters : ∀ a, a ∈ ledger.voters → ∃ r ∈ rounds, r.ballot?.isSome = true ∧ r.header.generator = a

theorem tallied_empty (n : Word) : Tallied n [] .empty where
  nodup kind := List.nodup_nil
  le_highest kind v hv := by simp [votesCast] at hv
  votes kind h hh := by simp [Ledger.empty] at hh
  within h hh := by simp [Ledger.empty] at hh
  dropped kind v hv := by simp [votesCast] at hv
  quorum h hpos := by simp at hpos
  voters a ha := by simp [Ledger.empty] at ha

namespace Tallied

variable {n : Word} {ledger counted pruned : Ledger}

theorem skip (htallied : Tallied n rounds ledger) (hnone : r.ballot? = none) :
    Tallied n (rounds ++ [r]) ledger := by
  have hvotes : ∀ kind, votesCast (rounds ++ [r]) kind = votesCast rounds kind := by
    intro kind
    rw [votesCast_concat]
    simp [Round.votes, Round.heights_of_ballot?_eq_none hnone]
  refine ⟨fun kind => ?_, fun kind v hv => ?_, fun kind h hh => ?_, htallied.within,
    fun kind v hv => ?_, htallied.quorum, fun a ha => ?_⟩
  · rw [hvotes]
    exact htallied.nodup kind
  · rw [hvotes] at hv
    exact htallied.le_highest kind v hv
  · rw [numVotes, hvotes]
    exact htallied.votes kind h hh
  · rw [hvotes] at hv
    exact htallied.dropped kind v hv
  · obtain ⟨r', hr', hballot⟩ := htallied.voters a ha
    exact ⟨r', List.mem_append_left _ hr', hballot⟩

/-! ### The ledger between counting and pruning -/

theorem numVotes_eq_zero (htallied : Tallied n rounds ledger) (hnot : h ∉ ledger.tallies)
    (hlow : ∀ k, k ∈ ledger.tallies → k.toNat < h.toNat + (Word.satMul n 5).toNat) :
    numVotes rounds kind h = 0 := by
  refine List.countP_eq_zero.mpr fun v hv heq => ?_
  have hheight : v.height = h := by simpa using heq
  rcases htallied.dropped kind v hv with hmem | ⟨k, hk, hle⟩
  · exact hnot (hheight ▸ hmem)
  · have := hlow k hk
    rw [hheight] at hle
    omega

theorem numVotes_counted (htallied : Tallied n rounds ledger) (hcounts : r.Counts ledger counted)
    (hlow : ∀ k, k ∈ ledger.tallies → k.toNat < h.toNat + (Word.satMul n 5).toNat) :
    ((counted.tally h).votes kind).toNat = numVotes (rounds ++ [r]) kind h := by
  rw [hcounts.votes, numVotes_concat]
  by_cases hmem : h ∈ ledger.tallies
  · rw [htallied.votes kind h hmem]
  · rw [htallied.numVotes_eq_zero hmem hlow, Ledger.tally_of_not_mem hmem, Tally.votes_zero]
    rfl

/-- A tally never passes the number of votes, even where earlier votes were dropped. -/
theorem votes_counted_le (htallied : Tallied n rounds ledger)
    (hcounts : r.Counts ledger counted) :
    ((counted.tally h).votes kind).toNat ≤ numVotes (rounds ++ [r]) kind h := by
  rw [hcounts.votes, numVotes_concat]
  by_cases hmem : h ∈ ledger.tallies
  · rw [htallied.votes kind h hmem]
  · rw [Ledger.tally_of_not_mem hmem, Tally.votes_zero]
    have hzero : (0 : Word).toNat = 0 := rfl
    omega

theorem votes_lt_card (htallied : Tallied n rounds ledger) {generator : Address}
    {voters : Finset Address} (hvoters : votersOf rounds kind h ⊆ voters)
    (hgenerator : generator ∈ voters)
    (habove : ((ledger.votesOf generator).highest kind).toNat < h.toNat) :
    ((ledger.tally h).votes kind).toNat < voters.card := by
  have hle : ((ledger.tally h).votes kind).toNat ≤ (votersOf rounds kind h).card := by
    by_cases hmem : h ∈ ledger.tallies
    · rw [htallied.votes kind h hmem, card_votersOf (htallied.nodup kind)]
    · rw [Ledger.tally_of_not_mem hmem, Tally.votes_zero]
      exact Nat.zero_le _
  have hnew : generator ∉ votersOf rounds kind h := by
    intro hmem
    obtain ⟨r, hr, rfl, hh⟩ := mem_votersOf.mp hmem
    have hle := htallied.le_highest kind ⟨r.header.generator, h⟩
      (mem_votesCast.mpr ⟨r, hr, rfl, hh⟩)
    exact absurd habove (Nat.not_lt.mpr hle)
  have hstrict : votersOf rounds kind h ⊂ voters :=
    (Finset.ssubset_iff_of_subset hvoters).mpr ⟨generator, hgenerator, hnew⟩
  exact Nat.lt_of_le_of_lt hle (Finset.card_lt_card hstrict)

theorem exists_counted (htallied : Tallied n rounds ledger) {voters : Finset Address}
    (hcard : voters.card ≤ Word.maxNat)
    (hvoters : ∀ r ∈ rounds, r.ballot?.isSome = true → r.header.generator ∈ voters)
    (rules : VotingRules) {header : Header} {validators : List Validator} (headers : Window)
    (hgenerator : ∀ validator, VotingRules.voter header validators = .ok validator →
      header.generator ∈ voters) :
    ∃ counted, (rules.count header ledger validators headers).ledger? ledger = some counted := by
  unfold VotingRules.count
  cases hvoter : VotingRules.voter header validators with
  | error reason => exact ⟨ledger, rfl⟩
  | ok validator =>
      have hforged := (VotingRules.voter_eq_ok hvoter).1
      have hballot : ∃ ballot, rules.ballot? header validator ledger headers = some ballot :=
        VotingRules.ballot?_isSome hforged
      obtain ⟨ballot, hballot⟩ := hballot
      have hroom : ∀ kind, ∀ h ∈ ballot.votes kind,
          ((ledger.tally h).votes kind).toNat + (ballot.votes kind).count h ≤ Word.maxNat := by
        intro kind h hh
        have honce := List.nodup_iff_count_le_one.mp
          (VotingRules.ascending_votes hballot kind).nodup h
        have hlt := htallied.votes_lt_card (votersOf_subset hvoters) (hgenerator validator hvoter)
          (VotingRules.highest_lt_of_mem hballot hh)
        omega
      have hcast : ∃ counted, ledger.cast? header.generator ballot = some counted :=
        Ledger.cast?_isSome hroom
      obtain ⟨counted, hcast⟩ := hcast
      simp only [hballot, hcast]
      exact ⟨counted, rfl⟩

theorem nodup_counted (htallied : Tallied n rounds ledger) (hcounts : r.Counts ledger counted) :
    (votesCast (rounds ++ [r]) kind).Nodup := by
  rw [votesCast_concat]
  refine List.Nodup.append (htallied.nodup kind) ?_ ?_
  · refine (hcounts.nodup kind).map fun h k heq => ?_
    exact (Vote.mk.inj heq).2
  · intro v hv hnew
    obtain ⟨hvoter, hheight⟩ := mem_votes.mp hnew
    have hle := htallied.le_highest kind v hv
    have hlt := hcounts.above kind v.height hheight
    rw [hvoter] at hle
    omega

theorem votes_counted_le_card (htallied : Tallied n rounds ledger)
    (hcounts : r.Counts ledger counted) :
    ((counted.tally h).votes kind).toNat ≤ (votersOf (rounds ++ [r]) kind h).card := by
  rw [card_votersOf (htallied.nodup_counted hcounts)]
  exact htallied.votes_counted_le hcounts

theorem quorum_counted (htallied : Tallied n rounds ledger) (hcounts : r.Counts ledger counted)
    (hn : r.finality.validators = n) (hpos : 0 < ((counted.tally h).votes .precommit).toNat) :
    (Quorum.ofValidators n).isMet (counted.tally h).prevotes = true := by
  have hbefore : (Quorum.ofValidators n).isMet (ledger.tally h).prevotes = true := by
    rw [hcounts.votes] at hpos
    by_cases hnew : h ∈ r.heights .precommit
    · have hquorum := hcounts.quorum h hnew
      rwa [Finality.quorum, hn] at hquorum
    · rw [List.count_eq_zero.mpr hnew] at hpos
      exact htallied.quorum h hpos
  have hgrown := hcounts.votes .prevote h
  rw [Quorum.isMet_iff] at hbefore ⊢
  have hbound : ((counted.tally h).prevotes).toNat =
      ((ledger.tally h).prevotes).toNat + (r.heights .prevote).count h := hgrown
  omega

/-! ### The step -/

theorem step (htallied : Tallied n rounds ledger) (hcounts : r.Counts ledger counted)
    (hpruned : counted.IsPruned (Word.satMul n 5).toNat pruned)
    (hn : r.finality.validators = n) : Tallied n (rounds ++ [r]) pruned := by
  have hwindow : 0 < (Word.satMul n 5).toNat := hn ▸ r.finality.retained_pos
  refine ⟨fun kind => htallied.nodup_counted hcounts, fun kind v hv => ?_, fun kind h hh => ?_,
    fun h hh k hk => ?_, fun kind v hv => ?_, fun h hpos => ?_, fun a ha => ?_⟩
  case refine_1 =>
      rw [hpruned.votesOf]
      rw [votesCast_concat, List.mem_append] at hv
      rcases hv with hold | hnew
      · exact (htallied.le_highest kind v hold).trans (hcounts.raised kind v.voter)
      · obtain ⟨hvoter, hheight⟩ := mem_votes.mp hnew
        rw [hvoter]
        exact hcounts.reached kind v.height hheight
  case refine_2 =>
      rw [hpruned.tally h hh]
      apply htallied.numVotes_counted hcounts
      intro k hk
      exact ((hpruned.mem_iff h).mp hh).2 k ((hcounts.mem_iff k).mpr (.inl hk))
  case refine_3 => exact ((hpruned.mem_iff h).mp hh).2 k ((hpruned.mem_iff k).mp hk).1
  case refine_4 =>
      have hcounted : v.height ∈ counted.tallies ∨
          ∃ k, k ∈ counted.tallies ∧ v.height.toNat + (Word.satMul n 5).toNat ≤ k.toNat := by
        rw [votesCast_concat, List.mem_append] at hv
        rcases hv with hold | hnew
        · rcases htallied.dropped kind v hold with hmem | ⟨k, hk, hle⟩
          · exact .inl ((hcounts.mem_iff _).mpr (.inl hmem))
          · exact .inr ⟨k, (hcounts.mem_iff k).mpr (.inl hk), hle⟩
        · exact .inl ((hcounts.mem_iff _).mpr (.inr ⟨kind, (mem_votes.mp hnew).2⟩))
      rcases hcounted with hmem | ⟨k, hk, hle⟩
      · exact hpruned.mem_or_dropped hwindow hmem
      · obtain ⟨top, htop, hkTop⟩ := hpruned.exists_ge_of_mem hwindow hk
        exact .inr ⟨top, htop, by omega⟩
  case refine_5 =>
      by_cases hmem : h ∈ pruned.tallies
      · rw [hpruned.tally h hmem] at hpos ⊢
        exact htallied.quorum_counted hcounts hn hpos
      · rw [Ledger.tally_of_not_mem hmem] at hpos
        simp at hpos
  case refine_6 =>
      rw [hpruned.voters] at ha
      rcases hcounts.mem_voters a ha with hold | ⟨hgenerator, hballot⟩
      · obtain ⟨r', hr', hcast⟩ := htallied.voters a hold
        exact ⟨r', List.mem_append_left _ hr', hcast⟩
      · exact ⟨r, by simp, hballot, hgenerator.symm⟩

theorem size_voters_le (htallied : Tallied n rounds ledger) {voters : Finset Address}
    (hvoters : ∀ r ∈ rounds, r.ballot?.isSome = true → r.header.generator ∈ voters) :
    ledger.voters.size ≤ voters.card := by
  apply size_le_card_of_mem
  intro a ha
  obtain ⟨r, hr, hballot, rfl⟩ := htallied.voters a ha
  exact hvoters r hr hballot

end Tallied

/-! ## Runs -/

section Run

variable {n : Word} {genesis : Height} {view : View}

theorem Round.IsApplied.ledger_eq {synced : Finality} {ledger counted pruned loaded : Ledger}
    {validators : List Validator} (happlied : r.IsApplied synced ledger validators counted pruned)
    (hbefore : r.view.SameRecords view) (hload : Ledger.load view = .ok loaded) :
    ledger = loaded := by
  have hread := (Finality.read_eq_ok_iff.mp happlied.read).1
  rw [hbefore.load_eq, hload] at hread
  exact (Except.ok.inj hread).symm

theorem Tallied.apply {synced : Finality} {ledger counted pruned : Ledger}
    {validators : List Validator} (htallied : Tallied n rounds ledger)
    (happlied : r.IsApplied synced ledger validators counted pruned)
    (hn : r.finality.validators = n) {voters : Finset Address} (hcard : voters.card ≤ Word.maxNat)
    (hvoters : ∀ r' ∈ rounds ++ [r], r'.ballot?.isSome = true → r'.header.generator ∈ voters) :
    Tallied n (rounds ++ [r]) pruned ∧ Ledger.load r.viewAfter = .ok pruned := by
  have hpruned := Ledger.isPruned_prune? happlied.prunes
  rw [Finality.retained, hn] at hpruned
  have hstep := htallied.step happlied.counts_ledger hpruned hn
  exact ⟨hstep, happlied.load_viewAfter ((hstep.size_voters_le hvoters).trans hcard)⟩

/-- After a run the ledger can be read and tells about all of its rounds. -/
theorem exists_tallied (hrun : Run n genesis rounds view) {voters : Finset Address}
    (hcard : voters.card ≤ Word.maxNat)
    (hvoters : ∀ r ∈ rounds, r.ballot?.isSome = true → r.header.generator ∈ voters) :
    ∃ ledger, Ledger.load view = .ok ledger ∧ Tallied n rounds ledger := by
  induction hrun with
  | start hledger hmarker => exact ⟨.empty, Ledger.load_of_none hledger, tallied_empty n⟩
  | @step rounds view after r hrun hn hgenesis hbefore hafter ih =>
      obtain ⟨ledger, hload, htallied⟩ := ih fun r hr => hvoters r (List.mem_append_left _ hr)
      cases haccepted : r.isAccepted with
      | false =>
          have hview := Round.viewAfter_of_not_accepted haccepted
          refine ⟨ledger, ?_, htallied.skip ?_⟩
          · rw [hafter.load_eq, hview, hbefore.load_eq, hload]
          · cases hballot : r.ballot? with
            | none => rfl
            | some ballot =>
                rw [Round.isAccepted_of_ballot? hballot] at haccepted
                simp at haccepted
      | true =>
          obtain ⟨synced, read, validators, counted, pruned, happlied⟩ :=
            Round.isAccepted_iff.mp haccepted
          obtain rfl := happlied.ledger_eq hbefore hload
          obtain ⟨hstep, hwritten⟩ := htallied.apply happlied hn hcard hvoters
          exact ⟨pruned, hafter.load_eq.trans hwritten, hstep⟩

/-- No validator votes twice for a height, and what is stored for a height is the number of its
voters; a height with precommits has a prevote quorum. -/
theorem tallies_exact (hrun : Run n genesis rounds view) (hlength : rounds.length < 2 ^ 64) :
    (∀ kind, (votesCast rounds kind).Nodup) ∧
      ∃ ledger, Ledger.load view = .ok ledger ∧ ∀ h, h ∈ ledger.tallies →
        (∀ kind, ((ledger.tally h).votes kind).toNat = (votersOf rounds kind h).card) ∧
          (0 < (ledger.tally h).precommits →
            (Quorum.ofValidators n).isMet (ledger.tally h).prevotes = true) := by
  have hcard : (rounds.map fun r => r.header.generator).toFinset.card ≤ Word.maxNat := by
    have hle := List.toFinset_card_le (rounds.map fun r => r.header.generator)
    rw [List.length_map] at hle
    unfold Word.maxNat
    omega
  obtain ⟨ledger, hload, htallied⟩ := exists_tallied hrun hcard fun r hr _ =>
    List.mem_toFinset.mpr (List.mem_map_of_mem hr)
  refine ⟨htallied.nodup, ledger, hload, fun h hh => ⟨fun kind => ?_, fun hpos => ?_⟩⟩
  · rw [card_votersOf (htallied.nodup kind), htallied.votes kind h hh]
  · exact htallied.quorum h (UInt64.lt_iff_toNat_lt.mp hpos)

/-- Three headers of a single validator, the second of which names a height above its own. -/
theorem tallies_exact_of_three :
    let node := Node.start 1 (by decide) 0 [⟨.ofNat 1, true, 0⟩]
    let headers : List Header :=
      [⟨1, .ofNat 1, .ofNat 0, .ofNat 1, 0, 0, 0, 0⟩, ⟨2, .ofNat 2, .ofNat 1, .ofNat 1, 0, 0, 3, 1⟩,
        ⟨3, .ofNat 3, .ofNat 2, .ofNat 1, 0, 0, 1, 1⟩]
    (∀ kind, (votesCast (node.rounds headers) kind).Nodup) ∧
      ∃ ledger, Ledger.load ((node.run headers).store.view node.db) = .ok ledger ∧
        ∀ h, h ∈ ledger.tallies →
          (∀ kind, ((ledger.tally h).votes kind).toNat =
            (votersOf (node.rounds headers) kind h).card) ∧
            (0 < (ledger.tally h).precommits →
              (Quorum.ofValidators 1).isMet (ledger.tally h).prevotes = true) :=
  tallies_exact (Node.isRun Node.isFresh_start _) (by decide)

end Run

end FinalityGadget
