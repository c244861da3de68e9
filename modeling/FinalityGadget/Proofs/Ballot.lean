import FinalityGadget.Proofs.Quorum
import FinalityGadget.Proofs.Trail
import FinalityGadget.Proofs.Votes

/-!
# What a ballot holds

The heights of a ballot by membership: a prevote for every height that the header acknowledges and
its generator has not prevoted yet, a precommit for every lower height with a prevote quorum that
the generator has not precommitted yet and that its history vouches for.
-/

namespace FinalityGadget.VotingRules

variable {rules : VotingRules} {header : Header} {validator : Validator}
  {validators : List Validator} {ledger : Ledger} {headers : Window} {ballot : Ballot}

theorem voter_eq_ok (hvoter : voter header validators = .ok validator) :
    header.previouslyForged.toNat < header.height.toNat ∧
      validators.find? (fun v => v.address = header.generator) = some validator ∧
      validator.participates = true := by
  unfold voter at hvoter
  split at hvoter
  · simp at hvoter
  · rename_i hlt
    rw [UInt64.le_iff_toNat_le] at hlt
    split at hvoter
    · rename_i v hfind
      split at hvoter
      · rename_i hparticipates
        obtain rfl := Except.ok.inj hvoter
        exact ⟨by omega, hfind, hparticipates⟩
      · simp at hvoter
    · simp at hvoter

theorem voter_congr {other : Header} (hvoter : voter header validators = .ok validator)
    (hgenerator : other.generator = header.generator)
    (hforged : other.previouslyForged.toNat < other.height.toNat) :
    voter other validators = .ok validator := by
  obtain ⟨-, hfind, hparticipates⟩ := voter_eq_ok hvoter
  have hnot : ¬ other.height ≤ other.previouslyForged := by
    rw [UInt64.le_iff_toNat_le]
    omega
  unfold voter
  rw [if_neg hnot, hgenerator, hfind]
  simp only [hparticipates, if_true]

/-- The lowest height that a header may vote for on behalf of a validator. -/
def lowestFor (rules : VotingRules) (header : Header) (validator : Validator) : Nat :=
  max (header.height.toNat - rules.reach.toNat) validator.activeFrom.toNat

theorem toNat_lowest : (max (rules.lowest header) validator.activeFrom).toNat =
    rules.lowestFor header validator := by
  rw [Word.toNat_max, lowest, Header.toNat_below]
  rfl

theorem ballot?_eq_some (hballot : rules.ballot? header validator ledger headers = some ballot) :
    ((ledger.votesOf header.generator).precommitted.next? = none ∧ ballot.precommits = [] ∨
      ∃ next floor, (ledger.votesOf header.generator).precommitted.next? = some next ∧
        header.precommitFloor? rules.reach (header.trail rules.reach headers) = some floor ∧
        ballot.precommits = rules.precommitsFrom header ledger
          (max (max (max (rules.lowest header) validator.activeFrom) floor) next)) ∧
    ((ledger.votesOf header.generator).prevoted.next? = none ∧ ballot.prevotes = [] ∨
      ∃ next acknowledged, (ledger.votesOf header.generator).prevoted.next? = some next ∧
        header.previouslyForged.next? = some acknowledged ∧
        ballot.prevotes = ((max (max (max (rules.lowest header) validator.activeFrom)
          acknowledged) next).through header.height).toList) := by
  unfold ballot? at hballot
  simp only at hballot
  generalize max (rules.lowest header) validator.activeFrom = lowest at hballot ⊢
  cases hcommit : (ledger.votesOf header.generator).precommitted.next? with
  | none =>
      cases hvote : (ledger.votesOf header.generator).prevoted.next? with
      | none =>
          simp only [hcommit, hvote, Option.pure_def, Option.bind_eq_bind, Option.bind_some,
            Option.some.injEq] at hballot
          rw [← hballot]
          exact ⟨.inl ⟨rfl, rfl⟩, .inl ⟨rfl, rfl⟩⟩
      | some next =>
          simp only [hcommit, hvote, Option.pure_def, Option.bind_eq_bind, Option.bind_some,
            Option.bind_eq_some_iff, Option.some.injEq] at hballot
          obtain ⟨acknowledged, hacknowledged, heq⟩ := hballot
          rw [← heq]
          exact ⟨.inl ⟨rfl, rfl⟩, .inr ⟨next, acknowledged, rfl, hacknowledged, rfl⟩⟩
  | some next =>
      cases hvote : (ledger.votesOf header.generator).prevoted.next? with
      | none =>
          simp only [hcommit, hvote, Option.pure_def, Option.bind_eq_bind, Option.bind_some,
            Option.bind_eq_some_iff, Option.some.injEq] at hballot
          obtain ⟨floor, hfloor, heq⟩ := hballot
          rw [← heq]
          exact ⟨.inr ⟨next, floor, rfl, hfloor, rfl⟩, .inl ⟨rfl, rfl⟩⟩
      | some nextVote =>
          simp only [hcommit, hvote, Option.pure_def, Option.bind_eq_bind, Option.bind_some,
            Option.bind_eq_some_iff, Option.some.injEq] at hballot
          obtain ⟨floor, hfloor, acknowledged, hacknowledged, heq⟩ := hballot
          rw [← heq]
          exact ⟨.inr ⟨next, floor, rfl, hfloor, rfl⟩,
            .inr ⟨nextVote, acknowledged, rfl, hacknowledged, rfl⟩⟩

theorem ascending_votes (hballot : rules.ballot? header validator ledger headers = some ballot)
    (kind : VoteKind) : Height.Ascending (ballot.votes kind) := by
  obtain ⟨hprecommits, hprevotes⟩ := ballot?_eq_some hballot
  cases kind with
  | prevote =>
      show Height.Ascending ballot.prevotes
      obtain ⟨-, hnil⟩ | ⟨_, _, -, -, hlist⟩ := hprevotes
      · rw [hnil]
        exact Height.ascending_nil
      · rw [hlist]
        exact Height.ascending_through _ _
  | precommit =>
      show Height.Ascending ballot.precommits
      obtain ⟨-, hnil⟩ | ⟨_, _, -, -, hlist⟩ := hprecommits
      · rw [hnil]
        exact Height.ascending_nil
      · rw [hlist]
        exact (Height.ascending_upTo _ _).filter _

theorem mem_prevotes_iff (hballot : rules.ballot? header validator ledger headers = some ballot)
    {h : Height} :
    h ∈ ballot.prevotes ↔
      (ledger.votesOf header.generator).prevoted.toNat < h.toNat ∧
        header.previouslyForged.toNat < h.toNat ∧ rules.lowestFor header validator ≤ h.toNat ∧
        h.toNat ≤ header.height.toNat := by
  obtain ⟨hnext, hnil⟩ | ⟨next, acknowledged, hnext, hacknowledged, hlist⟩ :=
    (ballot?_eq_some hballot).2
  · have hfull := Word.succ?_eq_none_iff.mp hnext
    have hmax := Word.toNat_le h
    rw [hnil]
    simp only [List.not_mem_nil, false_iff]
    omega
  · have hnextNat := Word.succ?_eq_some_iff.mp hnext
    have hacknowledgedNat := Word.succ?_eq_some_iff.mp hacknowledged
    rw [hlist, Height.mem_toList_through, Word.toNat_max, Word.toNat_max, toNat_lowest]
    omega

theorem mem_precommits_iff
    (hballot : rules.ballot? header validator ledger headers = some ballot) {floor : Height}
    (hfloor : header.precommitFloor? rules.reach (header.trail rules.reach headers) = some floor)
    {h : Height} :
    h ∈ ballot.precommits ↔
      (ledger.votesOf header.generator).precommitted.toNat < h.toNat ∧
        rules.lowestFor header validator ≤ h.toNat ∧ floor.toNat ≤ h.toNat ∧
        h.toNat < header.height.toNat ∧ rules.quorum.isMet (ledger.tally h).prevotes = true := by
  obtain ⟨hnext, hnil⟩ | ⟨next, other, hnext, hother, hlist⟩ := (ballot?_eq_some hballot).1
  · have hfull := Word.succ?_eq_none_iff.mp hnext
    have hmax := Word.toNat_le h
    rw [hnil]
    simp only [List.not_mem_nil, false_iff]
    omega
  · obtain rfl : other = floor := Option.some.inj (hother.symm.trans hfloor)
    have hnextNat := Word.succ?_eq_some_iff.mp hnext
    rw [hlist, precommitsFrom, List.mem_filter, Height.mem_toList_upTo, Word.toNat_max,
      Word.toNat_max, toNat_lowest]
    constructor
    · rintro ⟨hrange, hquorum⟩
      exact ⟨by omega, by omega, by omega, by omega, hquorum⟩
    · rintro ⟨hvoted, hlowest, hfloorLe, hlt, hquorum⟩
      exact ⟨by omega, hquorum⟩

theorem mem_precommits (hballot : rules.ballot? header validator ledger headers = some ballot)
    {h : Height} (hh : h ∈ ballot.precommits) :
    (ledger.votesOf header.generator).precommitted.toNat < h.toNat ∧
      rules.lowestFor header validator ≤ h.toNat ∧ h.toNat < header.height.toNat ∧
      rules.quorum.isMet (ledger.tally h).prevotes = true ∧
      ∃ floor, header.precommitFloor? rules.reach (header.trail rules.reach headers) = some floor ∧
        floor.toNat ≤ h.toNat := by
  obtain ⟨-, hnil⟩ | ⟨-, floor, -, hfloor, -⟩ := (ballot?_eq_some hballot).1
  · rw [hnil] at hh
    simp at hh
  · obtain ⟨hvoted, hlowest, hfloorLe, hlt, hquorum⟩ := (mem_precommits_iff hballot hfloor).mp hh
    exact ⟨hvoted, hlowest, hlt, hquorum, floor, hfloor, hfloorLe⟩

theorem highest_lt_of_mem (hballot : rules.ballot? header validator ledger headers = some ballot)
    {kind : VoteKind} {h : Height} (hh : h ∈ ballot.votes kind) :
    ((ledger.votesOf header.generator).highest kind).toNat < h.toNat := by
  cases kind with
  | prevote => exact ((mem_prevotes_iff hballot).mp hh).1
  | precommit => exact (mem_precommits hballot hh).1

theorem le_height_of_mem (hballot : rules.ballot? header validator ledger headers = some ballot)
    {kind : VoteKind} {h : Height} (hh : h ∈ ballot.votes kind) :
    h.toNat ≤ header.height.toNat := by
  cases kind with
  | prevote => exact ((mem_prevotes_iff hballot).mp hh).2.2.2
  | precommit => exact Nat.le_of_lt (mem_precommits hballot hh).2.2.1

theorem height_le_of_mem (hballot : rules.ballot? header validator ledger headers = some ballot)
    {kind : VoteKind} {h : Height} (hh : h ∈ ballot.votes kind) :
    header.height.toNat ≤ h.toNat + rules.reach.toNat := by
  have hlowest : rules.lowestFor header validator ≤ h.toNat := by
    cases kind with
    | prevote => exact ((mem_prevotes_iff hballot).mp hh).2.2.1
    | precommit => exact (mem_precommits hballot hh).2.1
  unfold lowestFor at hlowest
  omega

theorem highest_raise_bounds
    (hballot : rules.ballot? header validator ledger headers = some ballot) (kind : VoteKind) :
    ((ledger.votesOf header.generator).highest kind).toNat ≤
        ((ballot.raise (ledger.votesOf header.generator)).highest kind).toNat ∧
      ∀ h ∈ ballot.votes kind,
        h.toNat ≤ ((ballot.raise (ledger.votesOf header.generator)).highest kind).toNat := by
  rw [Ballot.highest_raise]
  refine ⟨?_, fun h hh => (ascending_votes hballot kind).le_getLast hh _⟩
  cases hlast : (ballot.votes kind).getLast? with
  | none => exact Nat.le_refl _
  | some last => exact Nat.le_of_lt (highest_lt_of_mem hballot (List.mem_of_getLast? hlast))

theorem ballot?_isSome (hforged : header.previouslyForged.toNat < header.height.toNat) :
    ∃ ballot, rules.ballot? header validator ledger headers = some ballot := by
  have hfloor : ∃ floor,
      header.precommitFloor? rules.reach (header.trail rules.reach headers) = some floor :=
    Header.precommitFloor?_isSome hforged
  obtain ⟨floor, hfloor⟩ := hfloor
  have hacknowledged : ∃ acknowledged, header.previouslyForged.next? = some acknowledged := by
    have hmax := Word.toNat_le header.height
    cases hnext : header.previouslyForged.next? with
    | some acknowledged => exact ⟨acknowledged, rfl⟩
    | none =>
        have := Word.succ?_eq_none_iff.mp hnext
        omega
  obtain ⟨acknowledged, hacknowledged⟩ := hacknowledged
  unfold ballot?
  cases hcommit : (ledger.votesOf header.generator).precommitted.next? <;>
    cases hvote : (ledger.votesOf header.generator).prevoted.next? <;>
      simp only [hcommit, hvote, hfloor, hacknowledged, Option.pure_def, Option.bind_eq_bind,
        Option.bind_some, Option.some.injEq, exists_eq']

section Congr

variable {l l' : Ledger} {w w' : Window}

theorem precommitsFrom_congr {floor : Height}
    (htally : ∀ h : Height, floor.toNat ≤ h.toNat → l.tally h = l'.tally h) :
    rules.precommitsFrom header l floor = rules.precommitsFrom header l' floor := by
  refine List.filter_congr fun h hh => ?_
  rw [htally h (Height.mem_toList_upTo.mp hh).1]

/-- A ballot depends on no tally and no header out of reach. -/
theorem ballot?_congr (hvotes : l.votesOf header.generator = l'.votesOf header.generator)
    (htally : ∀ h : Height, header.height.toNat - rules.reach.toNat ≤ h.toNat →
      l.tally h = l'.tally h)
    (hheaders : ∀ k : Height, header.height.toNat - rules.reach.toNat ≤ k.toNat →
      w.get? k = w'.get? k) :
    rules.ballot? header validator l w = rules.ballot? header validator l' w' := by
  have hcommits : ∀ floor next : Height,
      rules.precommitsFrom header l
          (max (max (max (rules.lowest header) validator.activeFrom) floor) next) =
        rules.precommitsFrom header l'
          (max (max (max (rules.lowest header) validator.activeFrom) floor) next) := by
    intro floor next
    refine precommitsFrom_congr fun h hh => htally h ?_
    rw [Word.toNat_max, Word.toNat_max, toNat_lowest, lowestFor] at hh
    omega
  unfold ballot?
  simp only [hvotes, Header.trail_congr hheaders, hcommits]

end Congr

theorem count_eq_counted {after : Ledger} {votes : VoteHeights}
    (hcount : rules.count header ledger validators headers = .counted ballot votes after) :
    ∃ validator, voter header validators = .ok validator ∧
      rules.ballot? header validator ledger headers = some ballot ∧
      ledger.cast? header.generator ballot = some after := by
  unfold count at hcount
  split at hcount
  · simp at hcount
  · rename_i validator hvoter
    split at hcount
    · simp at hcount
    · rename_i b hballot
      split at hcount
      · simp at hcount
      · rename_i l hcast
        obtain ⟨rfl, -, rfl⟩ := Counting.counted.inj hcount
        exact ⟨validator, hvoter, hballot, hcast⟩

end FinalityGadget.VotingRules
