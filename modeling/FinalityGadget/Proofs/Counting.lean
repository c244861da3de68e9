import FinalityGadget.Proofs.Round
import Mathlib.Order.Bounds.Basic

/-!
# The votes that counting a header adds

Which heights a header votes for is said by two sets of heights that speak of the records before the
header alone: of the vote heights of its generator, and of the prevotes that the ledger held. A
prevote of the header itself therefore makes none of its precommits count, and no height is voted
for twice.
-/

namespace FinalityGadget

theorem Height.Ascending.isGreatest {heights : List Height} (h : Height.Ascending heights)
    {s : Set Height} (hs : ∀ j, j ∈ heights ↔ j ∈ s) (hnonempty : s.Nonempty) (d : Height) :
    IsGreatest s (heights.getLast?.getD d) := by
  obtain ⟨j, hj⟩ := hnonempty
  have hmem : heights.getLast?.getD d ∈ heights := by
    cases hlast : heights.getLast? with
    | none =>
        rw [← hs, List.getLast?_eq_none_iff.mp hlast] at hj
        simp at hj
    | some last => exact List.mem_of_getLast? hlast
  refine ⟨(hs _).mp hmem, fun k hk => ?_⟩
  rw [UInt64.le_iff_toNat_le]
  exact h.le_getLast ((hs k).mpr hk) d

theorem Height.getLast?_getD_of_empty {heights : List Height} {s : Set Height}
    (hs : ∀ j, j ∈ heights ↔ j ∈ s) (hempty : s = ∅) (d : Height) :
    heights.getLast?.getD d = d := by
  have hnil : heights = [] := by
    rw [List.eq_nil_iff_forall_not_mem]
    intro j hj
    rw [hs, hempty] at hj
    exact hj
  rw [hnil]
  rfl

/-! ## Headers whose votes count -/

namespace VotingRules

variable {rules : VotingRules} {header : Header} {validator : Validator}
  {validators : List Validator} {ledger : Ledger} {headers : Window}

theorem voter_of_find? (hforged : header.previouslyForged < header.height)
    (hfind : validators.find? (fun v => v.address = header.generator) = some validator)
    (hparticipates : validator.participates = true) :
    voter header validators = .ok validator := by
  unfold voter
  rw [if_neg (UInt64.not_le.mpr hforged), hfind]
  exact if_pos hparticipates

theorem count_of_abstains (habstains : header.height ≤ header.previouslyForged ∨
      ∀ v, validators.find? (fun v => v.address = header.generator) = some v →
        v.participates = false) :
    ∃ reason, rules.count header ledger validators headers = .abstained reason := by
  cases hvoter : voter header validators with
  | error reason =>
      unfold count
      rw [hvoter]
      exact ⟨reason, rfl⟩
  | ok v =>
      obtain ⟨hforged, hfind, hparticipates⟩ := voter_eq_ok hvoter
      rcases habstains with hclaim | hnone
      · rw [UInt64.le_iff_toNat_le] at hclaim
        omega
      · rw [hnone v hfind] at hparticipates
        cases hparticipates

end VotingRules

/-! ## One height after the other

The votes of a header are counted by two loops that write to the ledger they read. A precommit
leaves the prevotes as they are, so what the first loop finds is what the ledger held before it.
-/

/-- Where counting stands: the ledger, and the vote heights of the generator. -/
structure Tallying where
  ledger : Ledger
  votes : VoteHeights

namespace Tallying

/-- Looks at a height to precommit: the vote counts if the ledger has a prevote quorum for it. -/
def precommit? (q : Quorum) (t : Tallying) (height : Height) : Option Tallying :=
  if q.isMet (t.ledger.tally height).prevotes then
    (t.ledger.precommit? height).map (⟨·, { t.votes with precommitted := height }⟩)
  else some t

def prevote? (t : Tallying) (height : Height) : Option Tallying :=
  (t.ledger.prevote? height).map (⟨·, { t.votes with prevoted := height }⟩)

theorem foldlM_precommit? (q : Quorum) (heights : List Height) (l : Ledger) (v : VoteHeights) :
    heights.foldlM (precommit? q) ⟨l, v⟩ =
      let met := heights.filter fun h => q.isMet (l.tally h).prevotes
      (met.foldlM Ledger.precommit? l).map
        (⟨·, { v with precommitted := met.getLast?.getD v.precommitted }⟩) := by
  induction heights generalizing l v with
  | nil => rfl
  | cons height rest ih =>
      by_cases hmet : q.isMet (l.tally height).prevotes = true
      · cases hvote : l.precommit? height with
        | none => simp [precommit?, hmet, hvote]
        | some next =>
            have hgains : Ledger.Gains .precommit l [height] next := Ledger.gains_of_vote? hvote
            have hsame : ∀ h, (next.tally h).prevotes = (l.tally h).prevotes :=
              hgains.others .prevote (by simp)
            simp [precommit?, hmet, hvote, ih, hsame, List.getLast?_cons]
      · simp [precommit?, hmet, ih]

theorem foldlM_prevote? (heights : List Height) (l : Ledger) (v : VoteHeights) :
    heights.foldlM prevote? ⟨l, v⟩ = (heights.foldlM Ledger.prevote? l).map
      (⟨·, { v with prevoted := heights.getLast?.getD v.prevoted }⟩) := by
  induction heights generalizing l v with
  | nil => rfl
  | cons height rest ih =>
      cases hvote : l.prevote? height with
      | none => simp [prevote?, hvote]
      | some next => simp [prevote?, hvote, ih, List.getLast?_cons]

end Tallying

namespace VotingRules

/-- The votes of a header counted in the order of their heights, the precommits first. -/
def countInOrder? (rules : VotingRules) (header : Header) (validator : Validator)
    (ledger : Ledger) (headers : Window) : Option Ledger := do
  let start : Tallying := ⟨ledger, ledger.votesOf header.generator⟩
  let lowest := max (rules.lowest header) validator.activeFrom
  let precommitted ←
    match start.votes.precommitted.next? with
    | none => some start
    | some next => do
      let floor ← header.precommitFloor? rules.reach (header.trail rules.reach headers)
      ((max (max lowest floor) next).upTo header.height).toList.foldlM
        (Tallying.precommit? rules.quorum) start
  let prevoted ←
    match precommitted.votes.prevoted.next? with
    | none => some precommitted
    | some next => do
      let acknowledged ← header.previouslyForged.next?
      ((max (max lowest acknowledged) next).through header.height).toList.foldlM
        Tallying.prevote? precommitted
  return prevoted.ledger.setVotes header.generator prevoted.votes

/-- The loops count the ballot that the ledger before them gives. -/
theorem countInOrder?_eq {rules : VotingRules} {header : Header} {validator : Validator}
    {ledger : Ledger} {headers : Window} :
    rules.countInOrder? header validator ledger headers =
      (rules.ballot? header validator ledger headers).bind (ledger.cast? header.generator) := by
  unfold countInOrder? ballot? Ledger.cast?
  cases hcommit : (ledger.votesOf header.generator).precommitted.next? with
  | none =>
      cases hvote : (ledger.votesOf header.generator).prevoted.next? with
      | none => simp [hcommit, hvote, Ballot.raise]
      | some next =>
          cases header.previouslyForged.next? with
          | none => simp [hcommit, hvote]
          | some acknowledged =>
              simp [hcommit, hvote, Ballot.raise, Tallying.foldlM_prevote?, Option.bind_map]
  | some next =>
      cases hfloor : header.precommitFloor? rules.reach (header.trail rules.reach headers) with
      | none => simp [hcommit, hfloor]
      | some floor =>
          cases hvote : (ledger.votesOf header.generator).prevoted.next? with
          | none =>
              simp [hcommit, hfloor, hvote, Ballot.raise, Tallying.foldlM_precommit?,
                precommitsFrom, Option.bind_map]
          | some nextVote =>
              cases header.previouslyForged.next? with
              | none =>
                  simp [hcommit, hfloor, hvote, Tallying.foldlM_precommit?, Option.bind_map]
              | some acknowledged =>
                  simp [hcommit, hfloor, hvote, Ballot.raise, Tallying.foldlM_precommit?,
                    Tallying.foldlM_prevote?, precommitsFrom, Option.bind_map]

end VotingRules

namespace Finality

section Sets

variable (f : Finality) (header : Header) (validator : Validator) (ledger : Ledger)

/-- The lowest height within the processing threshold of a header. -/
def windowStart : Nat :=
  header.height.toNat - (min (3 * f.validators.toNat) Word.maxNat - 1)

/-- The heights that a header precommits, given where its history lets it start. -/
def precommitSet (floor : Height) : Set Height :=
  {j | max (max (f.windowStart header) validator.activeFrom.toNat)
        (max floor.toNat ((ledger.votesOf header.generator).precommitted.toNat + 1)) ≤ j.toNat ∧
      j.toNat < header.height.toNat ∧ f.quorum.isMet (ledger.tally j).prevotes = true}

/-- The heights that a header prevotes. -/
def prevoteSet : Set Height :=
  {j | max (max validator.activeFrom.toNat (header.previouslyForged.toNat + 1))
        (max ((ledger.votesOf header.generator).prevoted.toNat + 1) (f.windowStart header)) ≤
          j.toNat ∧ j.toNat ≤ header.height.toNat}

instance (floor : Height) : DecidablePred (· ∈ f.precommitSet header validator ledger floor) :=
  fun _ => inferInstanceAs (Decidable (_ ∧ _ ∧ _))

instance : DecidablePred (· ∈ f.prevoteSet header validator ledger) :=
  fun _ => inferInstanceAs (Decidable (_ ∧ _))

/-- The ledger `after` holds what `ledger` holds, and one vote of the generator for each height of
the two sets. -/
structure CountsAs (floor : Height) (after : Ledger) : Prop where
  precommits : ∀ j, (after.tally j).precommits.toNat = (ledger.tally j).precommits.toNat +
    if j ∈ f.precommitSet header validator ledger floor then 1 else 0
  prevotes : ∀ j, (after.tally j).prevotes.toNat = (ledger.tally j).prevotes.toNat +
    if j ∈ f.prevoteSet header validator ledger then 1 else 0
  /-- A height is only added to the ledger if it is voted for. -/
  mem_iff : ∀ j, j ∈ after.tallies ↔ j ∈ ledger.tallies ∨
    j ∈ f.precommitSet header validator ledger floor ∨ j ∈ f.prevoteSet header validator ledger
  /-- The vote heights of no other validator change. -/
  voters : after.voters = ledger.voters.insert header.generator (after.votesOf header.generator)
  precommitted : (f.precommitSet header validator ledger floor).Nonempty →
    IsGreatest (f.precommitSet header validator ledger floor)
      (after.votesOf header.generator).precommitted
  precommitted_of_empty : f.precommitSet header validator ledger floor = ∅ →
    (after.votesOf header.generator).precommitted = (ledger.votesOf header.generator).precommitted
  prevoted : (f.prevoteSet header validator ledger).Nonempty →
    (after.votesOf header.generator).prevoted = header.height
  prevoted_of_empty : f.prevoteSet header validator ledger = ∅ →
    (after.votesOf header.generator).prevoted = (ledger.votesOf header.generator).prevoted

end Sets

variable {f : Finality} {header : Header} {validator : Validator} {validators : List Validator}
  {ledger after : Ledger} {headers : Window} {ballot : Ballot} {floor : Height}

/-! ## The two sets -/

theorem windowStart_eq : f.windowStart header = header.height.toNat - f.rules.reach.toNat := by
  show _ = header.height.toNat - f.reach.toNat
  rw [windowStart, toNat_reach, Nat.mul_comm]

theorem mem_precommits_iff
    (hballot : f.rules.ballot? header validator ledger headers = some ballot)
    (hfloor : header.precommitFloor? f.reach (header.trail f.reach headers) = some floor)
    (j : Height) : j ∈ ballot.precommits ↔ j ∈ f.precommitSet header validator ledger floor := by
  rw [VotingRules.mem_precommits_iff hballot hfloor, VotingRules.lowestFor, ← windowStart_eq,
    precommitSet, Set.mem_ofPred_eq]
  constructor
  · rintro ⟨hvoted, hlowest, hfloorLe, hlt, hquorum⟩
    exact ⟨by omega, hlt, hquorum⟩
  · rintro ⟨hrange, hlt, hquorum⟩
    exact ⟨by omega, by omega, by omega, hlt, hquorum⟩

theorem mem_prevotes_iff
    (hballot : f.rules.ballot? header validator ledger headers = some ballot) (j : Height) :
    j ∈ ballot.prevotes ↔ j ∈ f.prevoteSet header validator ledger := by
  rw [VotingRules.mem_prevotes_iff hballot, VotingRules.lowestFor, ← windowStart_eq, prevoteSet,
    Set.mem_ofPred_eq]
  omega

theorem height_mem_prevoteSet (hnonempty : (f.prevoteSet header validator ledger).Nonempty) :
    header.height ∈ f.prevoteSet header validator ledger := by
  obtain ⟨j, hlow, hhigh⟩ := hnonempty
  exact ⟨hlow.trans hhigh, Nat.le_refl _⟩

/-! ## Counting -/

theorem votes_of_isCast (kind : VoteKind) {s : Set Height} [DecidablePred (· ∈ s)]
    (hballot : f.rules.ballot? header validator ledger headers = some ballot)
    (hcast : ledger.IsCast header.generator ballot after)
    (hs : ∀ j, j ∈ ballot.votes kind ↔ j ∈ s) (j : Height) :
    ((after.tally j).votes kind).toNat =
      ((ledger.tally j).votes kind).toNat + if j ∈ s then 1 else 0 := by
  have honce := (VotingRules.ascending_votes hballot kind).nodup
  rw [hcast.votes, honce.count]
  simp only [hs]

theorem countsAs_of_isCast
    (hballot : f.rules.ballot? header validator ledger headers = some ballot)
    (hfloor : header.precommitFloor? f.reach (header.trail f.reach headers) = some floor)
    (hcast : ledger.IsCast header.generator ballot after) :
    f.CountsAs header validator ledger floor after := by
  have hprecommits := mem_precommits_iff hballot hfloor
  have hprevotes := mem_prevotes_iff hballot
  have hprecommitsUp : Height.Ascending ballot.precommits :=
    VotingRules.ascending_votes hballot .precommit
  have hprevotesUp : Height.Ascending ballot.prevotes :=
    VotingRules.ascending_votes hballot .prevote
  have hvotes : after.votesOf header.generator =
      ballot.raise (ledger.votesOf header.generator) := by
    rw [hcast.votesOf, if_pos rfl]
  exact
    { precommits := votes_of_isCast .precommit hballot hcast hprecommits
      prevotes := votes_of_isCast .prevote hballot hcast hprevotes
      mem_iff := by
        intro j
        rw [hcast.mem_iff, ← hprecommits, ← hprevotes]
        refine or_congr_right ⟨?_, ?_⟩
        · rintro ⟨kind, hj⟩
          cases kind with
          | prevote => exact .inr hj
          | precommit => exact .inl hj
        · rintro (hj | hj)
          · exact ⟨.precommit, hj⟩
          · exact ⟨.prevote, hj⟩
      voters := by rw [hvotes, hcast.voters]
      precommitted := by
        intro hnonempty
        rw [hvotes]
        exact hprecommitsUp.isGreatest hprecommits hnonempty _
      precommitted_of_empty := by
        intro hempty
        rw [hvotes]
        exact Height.getLast?_getD_of_empty hprecommits hempty _
      prevoted := by
        intro hnonempty
        have hown := (hprevotes _).mpr (height_mem_prevoteSet hnonempty)
        have htop : ballot.prevotes.getLast? = some header.height :=
          hprevotesUp.getLast?_eq hown fun j hj => ((hprevotes j).mp hj).2
        rw [hvotes, Ballot.raise, htop]
        rfl
      prevoted_of_empty := by
        intro hempty
        rw [hvotes]
        exact Height.getLast?_getD_of_empty hprevotes hempty _ }

theorem exists_cast?
    (hballot : f.rules.ballot? header validator ledger headers = some ballot)
    (hroom : ∀ kind j, ((ledger.tally j).votes kind).toNat < Word.maxNat) :
    ∃ after, ledger.cast? header.generator ballot = some after := by
  apply Ledger.cast?_isSome
  intro kind j hj
  have honce : (ballot.votes kind).count j = 1 := by
    rw [(VotingRules.ascending_votes hballot kind).nodup.count, if_pos hj]
  have hfree := hroom kind j
  omega

/-- Counting a header, for every header and every ledger without a full tally. A header that names
no lower height, or whose generator is not listed first as a participant, leaves the ledger as it
is. Any other header adds the votes of the two sets to it, and nothing else. -/
theorem count_exact (f : Finality) (header : Header) (ledger : Ledger)
    (validators : List Validator) (headers : Window)
    (hroom : ∀ kind j, ((ledger.tally j).votes kind).toNat < Word.maxNat) :
    let counting := f.rules.count header ledger validators headers
    let listed := validators.find? fun v => v.address = header.generator
    ((header.height ≤ header.previouslyForged ∨ ∀ v, listed = some v → v.participates = false) →
        counting.isCounted = false ∧ counting.ledger? ledger = some ledger) ∧
      ∀ v, header.previouslyForged < header.height → listed = some v → v.participates = true →
        counting.isCounted = true ∧ ∃ floor after,
          header.precommitFloor? f.reach (header.trail f.reach headers) = some floor ∧
          counting.ledger? ledger = some after ∧
          f.rules.countInOrder? header v ledger headers = some after ∧
          f.CountsAs header v ledger floor after := by
  intro counting listed
  refine ⟨fun habstains => ?_, fun v hforged hlisted hparticipates => ?_⟩
  · obtain ⟨reason, hcounting⟩ : ∃ reason, counting = .abstained reason :=
      VotingRules.count_of_abstains habstains
    rw [hcounting]
    exact ⟨rfl, rfl⟩
  · have hvoter := VotingRules.voter_of_find? hforged hlisted hparticipates
    rw [UInt64.lt_iff_toNat_lt] at hforged
    obtain ⟨ballot, hballot⟩ : ∃ ballot, f.rules.ballot? header v ledger headers = some ballot :=
      VotingRules.ballot?_isSome hforged
    obtain ⟨floor, hfloor⟩ : ∃ floor,
        header.precommitFloor? f.reach (header.trail f.reach headers) = some floor :=
      Header.precommitFloor?_isSome hforged
    obtain ⟨after, hcast⟩ := exists_cast? hballot hroom
    have hcounting : counting = .counted ballot (after.votesOf header.generator) after := by
      show VotingRules.count _ _ _ _ _ = _
      simp only [VotingRules.count, hvoter, hballot, hcast]
    have hloops : f.rules.countInOrder? header v ledger headers = some after := by
      rw [VotingRules.countInOrder?_eq, hballot, Option.bind_some, hcast]
    rw [hcounting]
    exact ⟨rfl, floor, after, hfloor, rfl, hloops,
      countsAs_of_isCast hballot hfloor (Ledger.isCast_cast? hcast)⟩

/-- Of the heights 6 and 7, the ledger holds a quorum of prevotes for the first one only. The header
follows one of its generator at height 7, and prevotes the two heights above. -/
theorem count_exact_of_quorum :
    let f : Finality := ⟨4, by decide, 0, 0, 0⟩
    let ledger := (Ledger.empty.setTally 6 ⟨3, 0⟩).setTally 7 ⟨2, 0⟩
    let headers := (Window.empty 20).insert ⟨7, .ofNat 7, .ofNat 6, .ofNat 1, 0, 0, 0, 0⟩
    let header : Header := ⟨9, .ofNat 9, .ofNat 8, .ofNat 1, 0, 0, 7, 0⟩
    let counting := f.rules.count header ledger [⟨.ofNat 1, true, 0⟩] headers
    counting.isCounted = true ∧ ∃ after, counting.ledger? ledger = some after ∧
      f.CountsAs header ⟨.ofNat 1, true, 0⟩ ledger 1 after ∧
      after.tally 6 = ⟨3, 1⟩ ∧ after.tally 7 = ⟨2, 0⟩ ∧ after.tally 9 = ⟨1, 0⟩ ∧
      after.votesOf header.generator = ⟨9, 6⟩ := by
  intro f ledger headers header counting
  have hroom : ∀ kind j, ((ledger.tally j).votes kind).toNat < Word.maxNat := by
    intro kind j
    simp only [ledger, Ledger.tally_setTally, Ledger.tally_empty]
    split
    · cases kind <;> decide
    · split <;> cases kind <;> decide
  obtain ⟨hcounted, floor, after, hfloor, hafter, hloops, hcounts⟩ :=
    (count_exact f header ledger [⟨.ofNat 1, true, 0⟩] headers hroom).2 ⟨.ofNat 1, true, 0⟩
      (by decide) (by decide) rfl
  obtain rfl : floor = 1 := Option.some.inj (hfloor.symm.trans (by cbv))
  have hvalues : (counting.ledger? ledger).map (fun l =>
      (l.tally 6, l.tally 7, l.tally 9, l.votesOf header.generator)) =
        some (⟨3, 1⟩, ⟨2, 0⟩, ⟨1, 0⟩, ⟨9, 6⟩) := by
    subst counting header headers ledger f
    cbv
  have hafter : counting.ledger? ledger = some after := hafter
  rw [hafter, Option.map_some, Option.some.injEq, Prod.mk.injEq, Prod.mk.injEq,
    Prod.mk.injEq] at hvalues
  exact ⟨hcounted, after, hafter, hcounts, hvalues⟩

end Finality

end FinalityGadget
