import FinalityGadget.Proofs.BoundedHistory
import FinalityGadget.Proofs.Overflow
import FinalityGadget.Proofs.PrecommitBacking

/-!
# A header that is applied once more

A header does not contradict itself, so it may be applied twice. It has prevoted whatever it can by
then. But its prevotes are counted after its precommits: a height below its own that only these
prevotes brought to a quorum is precommitted the second time. With two or more validators a single
precommit finalizes nothing.
-/

namespace FinalityGadget

namespace Round

/-- The round applies the header of an earlier one to the records that the earlier one left: under
the same rule, with the same history of the header, and on behalf of the same validator. -/
structure Repeats (again first : Round) : Prop where
  header : again.header = first.header
  rule : again.finality.SameRule first.finality
  records : again.view.SameRecords first.viewAfter
  trail : first.header.previouslyForged.toNat < first.header.height.toNat →
    first.header.trail first.finality.reach again.store.headers =
      first.header.trail first.finality.reach first.store.headers
  voter : ∀ validators validators', first.registry first.view = .ok validators →
    again.registry again.view = .ok validators' →
      VotingRules.voter first.header validators' = VotingRules.voter first.header validators

/-- A height below its own that the header of a round prevoted, whose quorum hangs on that prevote,
and that its generator has not precommitted, nor any height above. A header precommits nothing if
its history comes to a gap among the retained headers. -/
structure IsLate (first : Round) (stored : Ledger) (h : Height) : Prop where
  gapless : ∀ missing,
    first.header.trail first.finality.reach first.store.headers ≠ .missing missing
  prevoted : h ∈ first.heights .prevote
  below : h.toNat < first.header.height.toNat
  quorum : (stored.tally h).prevotes = first.finality.quorum.votes
  precommitted : (stored.votesOf first.header.generator).precommitted.toNat < h.toNat

/-- What a repeated round does to the records: it adds the late precommits, and nothing else. -/
structure AddsLate (again first : Round) (stored after : Ledger) : Prop where
  accepted : again.isAccepted = true
  prevotes : again.heights .prevote = []
  mem_precommits_iff : ∀ h, h ∈ again.heights .precommit ↔ first.IsLate stored h
  mem_iff : ∀ h, h ∈ after.tallies ↔ h ∈ stored.tallies
  late : ∀ h, first.IsLate stored h → (after.tally h).prevotes = (stored.tally h).prevotes ∧
    (after.tally h).precommits.toNat = (stored.tally h).precommits.toNat + 1
  tally : ∀ h, ¬ first.IsLate stored h → after.tally h = stored.tally h
  votesOf : ∀ a, a ≠ first.header.generator → after.votesOf a = stored.votesOf a
  prevoted : (after.votesOf first.header.generator).prevoted =
    (stored.votesOf first.header.generator).prevoted
  precommitted : ∀ h, first.IsLate stored h →
    h.toNat ≤ (after.votesOf first.header.generator).precommitted.toNat
  precommitted_cases : (after.votesOf first.header.generator).precommitted =
      (stored.votesOf first.header.generator).precommitted ∨
    first.IsLate stored (after.votesOf first.header.generator).precommitted
  /-- A single precommit finalizes nothing unless there is a single validator. -/
  returns : 2 ≤ first.finality.validators.toNat ∨ (∀ h, ¬ first.IsLate stored h) →
    again.addition.verdict = .accepted none ∧
      again.addition.finality.finalized = first.addition.finality.finalized ∧
      Finality.marker again.viewAfter = Finality.marker again.view
  unchanged : (∀ h, ¬ first.IsLate stored h) → again.viewAfter = again.view

theorem IsApplied.ballot?_eq_none {r : Round} {synced : Finality} {ledger counted pruned : Ledger}
    {validators : List Validator} (h : r.IsApplied synced ledger validators counted pruned)
    {reason : Abstention} (hvoter : VotingRules.voter r.header validators = .error reason) :
    r.ballot? = none := by
  cases hballot : r.ballot? with
  | none => rfl
  | some ballot =>
      obtain ⟨validator, hother, -⟩ := h.ballot?_eq_some hballot
      rw [hvoter] at hother
      simp at hother

theorem gapless_of_precommit {r : Round} {h : Height} (hh : h ∈ r.heights .precommit)
    (missing : Height) : r.header.trail r.finality.reach r.store.headers ≠ .missing missing := by
  intro htrail
  obtain ⟨ballot, hballot, hmem⟩ := exists_ballot?_of_mem hh
  obtain ⟨synced, ledger, _, _, _, validator, happlied, -, hrules⟩ := exists_cast hballot
  have hreach : synced.rules.reach = r.finality.reach :=
    congrArg VotingRules.reach (Finality.sameRule_of_read happlied.read).rules_eq
  obtain ⟨-, -, hlt, -, floor, hfloor, hle⟩ := VotingRules.mem_precommits hrules hmem
  rw [hreach, htrail] at hfloor
  obtain rfl := Option.some.inj hfloor
  omega

namespace Repeats

variable {first again : Round} {synced synced' : Finality}
  {ledger counted stored counted' after : Ledger} {validators validators' : List Validator}
  (hrepeats : again.Repeats first)
  (hfirst : first.IsApplied synced ledger validators counted stored)
  (hagain : again.IsApplied synced' stored validators' counted' after)

include hrepeats hfirst hagain

theorem ballots :
    first.ballot? = none ∧ again.ballot? = none ∨
      ∃ validator ballot ballot', first.ballot? = some ballot ∧ again.ballot? = some ballot' ∧
        VotingRules.voter first.header validators = .ok validator ∧
        first.finality.rules.ballot? first.header validator ledger first.store.headers =
          some ballot ∧
        first.finality.rules.ballot? first.header validator stored again.store.headers =
          some ballot' := by
  have hvoters := hrepeats.voter validators validators' hfirst.registered hagain.registered
  have hrules : synced.rules = first.finality.rules :=
    (Finality.sameRule_of_read hfirst.read).rules_eq
  have hrules' : synced'.rules = first.finality.rules :=
    ((Finality.sameRule_of_read hagain.read).trans hrepeats.rule).rules_eq
  cases hvoter : VotingRules.voter first.header validators with
  | error reason =>
      rw [hvoter, ← hrepeats.header] at hvoters
      exact .inl ⟨hfirst.ballot?_eq_none hvoter, hagain.ballot?_eq_none hvoters⟩
  | ok validator =>
      rw [hvoter, ← hrepeats.header] at hvoters
      obtain ⟨ballot, hballot, hcast⟩ := hfirst.exists_ballot?_of_voter hvoter
      obtain ⟨ballot', hballot', hcast'⟩ := hagain.exists_ballot?_of_voter hvoters
      rw [hrules] at hcast
      rw [hrules', hrepeats.header] at hcast'
      exact .inr ⟨validator, ballot, ballot', hballot, hballot', rfl, hcast, hcast'⟩

theorem ballots_of_mem {kind : VoteKind} {h : Height}
    (hh : h ∈ first.heights kind ∨ h ∈ again.heights kind) :
    ∃ validator ballot ballot', first.heights = ballot.votes ∧ again.heights = ballot'.votes ∧
      first.header.previouslyForged.toNat < first.header.height.toNat ∧
      first.finality.rules.ballot? first.header validator ledger first.store.headers =
        some ballot ∧
      first.finality.rules.ballot? first.header validator stored again.store.headers =
        some ballot' := by
  rcases hrepeats.ballots hfirst hagain with
    ⟨hnone, hnone'⟩ | ⟨validator, ballot, ballot', hballot, hballot', hvoter, hcast, hcast'⟩
  · rw [heights_of_ballot?_eq_none hnone, heights_of_ballot?_eq_none hnone'] at hh
    simp at hh
  · exact ⟨validator, ballot, ballot', funext (heights_of_ballot? hballot),
      funext (heights_of_ballot? hballot'), (VotingRules.voter_eq_ok hvoter).1, hcast, hcast'⟩

omit hrepeats hagain in
theorem le_highest (kind : VoteKind) :
    ((ledger.votesOf first.header.generator).highest kind).toNat ≤
        ((stored.votesOf first.header.generator).highest kind).toNat ∧
      ∀ h ∈ first.heights kind,
        h.toNat ≤ ((stored.votesOf first.header.generator).highest kind).toNat := by
  rw [(Ledger.isPruned_prune? hfirst.prunes).votesOf]
  exact ⟨hfirst.counts_ledger.raised kind _, hfirst.counts_ledger.reached kind⟩

theorem heights_prevote_eq_nil : again.heights .prevote = [] := by
  rw [List.eq_nil_iff_forall_not_mem]
  intro h hh
  obtain ⟨validator, ballot, ballot', hheights, hheights', -, hcast, hcast'⟩ :=
    hrepeats.ballots_of_mem hfirst hagain (.inr hh)
  obtain ⟨hraised, hreached⟩ := le_highest hfirst .prevote
  replace hraised : (ledger.votesOf first.header.generator).prevoted.toNat ≤
      (stored.votesOf first.header.generator).prevoted.toNat := hraised
  rw [hheights'] at hh
  obtain ⟨habove, hforged, hlowest, hle⟩ := (VotingRules.mem_prevotes_iff hcast').mp hh
  have hmem : h ∈ ballot.prevotes :=
    (VotingRules.mem_prevotes_iff hcast).mpr ⟨by omega, hforged, hlowest, hle⟩
  have hbound : h.toNat ≤ (stored.votesOf first.header.generator).prevoted.toNat :=
    hreached h (by rwa [hheights])
  omega

omit hrepeats hagain in
theorem prevotes_stored {h : Height} (hmem : h ∈ stored.tallies) :
    (stored.tally h).prevotes.toNat =
      (ledger.tally h).prevotes.toNat + (first.heights .prevote).count h := by
  rw [(Ledger.isPruned_prune? hfirst.prunes).tally h hmem]
  exact hfirst.counts_ledger.votes .prevote h

theorem isMet_eq_false {h : Height} (hh : h ∈ again.heights .precommit) :
    first.finality.quorum.isMet (ledger.tally h).prevotes = false := by
  obtain ⟨validator, ballot, ballot', hheights, hheights', hforged, hcast, hcast'⟩ :=
    hrepeats.ballots_of_mem hfirst hagain (.inr hh)
  obtain ⟨hraised, hreached⟩ := le_highest hfirst .precommit
  replace hraised : (ledger.votesOf first.header.generator).precommitted.toNat ≤
      (stored.votesOf first.header.generator).precommitted.toNat := hraised
  rw [hheights'] at hh
  obtain ⟨habove, hlowest, hlt, -, floor, hfloor, hle⟩ := VotingRules.mem_precommits hcast' hh
  replace hfloor : first.header.precommitFloor? first.finality.reach
      (first.header.trail first.finality.reach again.store.headers) = some floor := hfloor
  rw [hrepeats.trail hforged] at hfloor
  rw [Bool.eq_false_iff]
  intro hmet
  have hmem : h ∈ ballot.precommits :=
    (VotingRules.mem_precommits_iff hcast hfloor).mpr ⟨by omega, hlowest, hle, hlt, hmet⟩
  have hbound : h.toNat ≤ (stored.votesOf first.header.generator).precommitted.toNat :=
    hreached h (by rwa [hheights])
  omega

theorem isLate_of_mem {h : Height} (hh : h ∈ again.heights .precommit) :
    first.IsLate stored h := by
  have hquorum : again.finality.quorum = first.finality.quorum :=
    congrArg VotingRules.quorum hrepeats.rule.rules_eq
  have hreach : again.finality.reach = first.finality.reach :=
    congrArg VotingRules.reach hrepeats.rule.rules_eq
  have hshort := hrepeats.isMet_eq_false hfirst hagain hh
  have hmet := hagain.counts_ledger.quorum h hh
  have habove := hagain.counts_ledger.above .precommit h hh
  have hgapless := gapless_of_precommit hh
  obtain ⟨validator, ballot, ballot', -, hheights', hforged, -, hcast'⟩ :=
    hrepeats.ballots_of_mem hfirst hagain (.inr hh)
  rw [hrepeats.header] at habove
  rw [hrepeats.header, hreach, hrepeats.trail hforged] at hgapless
  rw [hquorum, Quorum.isMet_iff] at hmet
  rw [Bool.eq_false_iff, ne_eq, Quorum.isMet_iff] at hshort
  rw [hheights'] at hh
  -- Only the prevote of the header itself can have made the difference.
  have hpos : 0 < first.finality.quorum.votes.toNat :=
    Quorum.votes_pos first.finality.validators_pos
  have hstored := prevotes_stored hfirst (Ledger.mem_of_prevotes_pos (hpos.trans_le hmet))
  have honce := List.nodup_iff_count_le_one.mp (hfirst.counts_ledger.nodup .prevote) h
  have hprevoted : h ∈ first.heights .prevote := by
    rw [← List.count_pos_iff]
    omega
  exact ⟨hgapless, hprevoted, (VotingRules.mem_precommits hcast' hh).2.2.1,
    UInt64.toNat_inj.mp (by omega), habove⟩

theorem mem_of_isLate {h : Height} (hlate : first.IsLate stored h) :
    h ∈ again.heights .precommit := by
  have hprevoted := hlate.prevoted
  obtain ⟨validator, ballot, ballot', hheights, hheights', hforged, hcast, hcast'⟩ :=
    hrepeats.ballots_of_mem hfirst hagain (.inl hprevoted)
  rw [hheights] at hprevoted
  obtain ⟨-, hacknowledged, hlowest, -⟩ := (VotingRules.mem_prevotes_iff hcast).mp hprevoted
  obtain ⟨floor, hfloor⟩ : ∃ floor, first.header.precommitFloor? first.finality.reach
      (first.header.trail first.finality.reach first.store.headers) = some floor :=
    Header.precommitFloor?_isSome hforged
  have hreach : first.header.height.toNat - first.finality.reach.toNat ≤ h.toNat :=
    (Nat.le_max_left _ _).trans hlowest
  have hle := Header.precommitFloor?_le hlate.gapless hfloor hreach hacknowledged
  rw [← hrepeats.trail hforged] at hfloor
  rw [hheights']
  refine (VotingRules.mem_precommits_iff hcast' hfloor).mpr
    ⟨hlate.precommitted, hlowest, hle, hlate.below, Quorum.isMet_iff.mpr ?_⟩
  rw [hlate.quorum]
  exact Nat.le_refl _

/-! ### What is stored -/

/-- No height is added: a late one has prevotes. -/
theorem mem_counted_iff (h : Height) : h ∈ counted'.tallies ↔ h ∈ stored.tallies := by
  rw [hagain.counts_ledger.mem_iff]
  refine ⟨fun hh => hh.elim id ?_, .inl⟩
  rintro ⟨kind, hh⟩
  cases kind with
  | prevote =>
      rw [hrepeats.heights_prevote_eq_nil hfirst hagain] at hh
      simp at hh
  | precommit =>
      apply Ledger.mem_of_prevotes_pos
      rw [(hrepeats.isLate_of_mem hfirst hagain hh).quorum]
      exact Quorum.votes_pos first.finality.validators_pos

theorem after_eq_counted : after = counted' := by
  have hmem := hrepeats.mem_counted_iff hfirst hagain
  have hretained : again.finality.retained = first.finality.retained := by
    unfold Finality.retained
    rw [hrepeats.rule.validators]
  have hpruned := Ledger.isPruned_prune? hagain.prunes
  have hstored := Ledger.isPruned_prune? hfirst.prunes
  rw [hretained] at hpruned
  have hnear : ∀ h, h ∈ counted'.tallies → ∀ k, k ∈ counted'.tallies →
      k.toNat < h.toNat + first.finality.retained.toNat := by
    intro h hh k hk
    rw [hmem] at hh hk
    exact ((hstored.mem_iff h).mp hh).2 k ((hstored.mem_iff k).mp hk).1
  have hkept : ∀ h, h ∈ after.tallies ↔ h ∈ counted'.tallies :=
    fun h => (hpruned.mem_iff h).trans (and_iff_left_of_imp (hnear h))
  refine Ledger.eq_of_tallies hpruned.voters hkept fun h => ?_
  by_cases hh : h ∈ after.tallies
  · exact hpruned.tally h hh
  · rw [Ledger.tally_of_not_mem hh, Ledger.tally_of_not_mem (mt (hkept h).mpr hh)]

theorem counted_eq_stored (hnone : again.heights .precommit = []) : counted' = stored := by
  have hnil : ∀ kind, again.heights kind = [] := by
    intro kind
    cases kind with
    | prevote => exact hrepeats.heights_prevote_eq_nil hfirst hagain
    | precommit => exact hnone
  rcases hrepeats.ballots hfirst hagain with
    ⟨-, hballot'⟩ | ⟨validator, ballot, ballot', hballot, hballot', -, -, -⟩
  · exact hagain.counted_of_ballot?_eq_none hballot'
  · obtain ⟨-, -, -, hcast'⟩ := hagain.ballot?_eq_some hballot'
    obtain ⟨-, -, -, hcast⟩ := hfirst.ballot?_eq_some hballot
    rw [hrepeats.header] at hcast'
    have hvotes : ∀ kind, ballot'.votes kind = [] :=
      fun kind => (heights_of_ballot? hballot' kind).symm.trans (hnil kind)
    have hraise : ∀ votes, ballot'.raise votes = votes := by
      intro votes
      have hprevotes : ballot'.prevotes = [] := hvotes .prevote
      have hprecommits : ballot'.precommits = [] := hvotes .precommit
      simp [Ballot.raise, hprevotes, hprecommits]
    have hvoter : first.header.generator ∈ stored.voters := by
      rw [(Ledger.isPruned_prune? hfirst.prunes).voters]
      exact ((Ledger.isCast_cast? hcast).mem_voters_iff _).mpr (.inl rfl)
    apply Ledger.eq_of_tallies _ (hrepeats.mem_counted_iff hfirst hagain)
    · intro h
      refine Tally.ext_votes fun kind => ?_
      rw [hagain.counts_ledger.votes, hnil]
      rfl
    · rw [(Ledger.isCast_cast? hcast').voters, hraise, Ledger.insert_votesOf_of_mem hvoter]

/-! ### What is finalized -/

theorem finalized_eq : synced'.finalized = (synced.advance counted).2.finalized := by
  obtain ⟨-, m', hmarker', hsynced'⟩ := Finality.read_eq_ok_iff.mp hagain.read
  obtain ⟨m, hmarker, hmax⟩ := hfirst.exists_marker_viewAfter
  rw [hrepeats.records.marker_eq, hmarker] at hmarker'
  obtain rfl := Except.ok.inj hmarker'
  rw [hsynced', ← hmax, ← hrepeats.rule.genesis]
  rfl

/-- A late height has no precommits yet: it had no quorum of prevotes before. -/
theorem precommits_eq_zero
    (hbacked : ∀ h, 0 < ((ledger.tally h).votes .precommit).toNat →
      first.finality.quorum.isMet (ledger.tally h).prevotes = true)
    {h : Height} (hh : h ∈ again.heights .precommit) : (stored.tally h).precommits.toNat = 0 := by
  have hlate := hrepeats.isLate_of_mem hfirst hagain hh
  have hmem : h ∈ stored.tallies :=
    (hrepeats.mem_counted_iff hfirst hagain h).mp
      ((hagain.counts_ledger.mem_iff h).mpr (.inr ⟨.precommit, hh⟩))
  have hbefore : ((ledger.tally h).votes .precommit).toNat = 0 := by
    by_contra hpos
    have hmet := hbacked h (Nat.pos_of_ne_zero hpos)
    rw [hrepeats.isMet_eq_false hfirst hagain hh] at hmet
    simp at hmet
  have hnot : h ∉ first.heights .precommit := by
    intro hcommitted
    have hle := (le_highest hfirst .precommit).2 h hcommitted
    have hlt := hlate.precommitted
    exact absurd hlt (Nat.not_lt.mpr hle)
  have hvotes := hfirst.counts_ledger.votes .precommit h
  rw [hbefore, List.count_eq_zero.mpr hnot] at hvotes
  rw [(Ledger.isPruned_prune? hfirst.prunes).tally h hmem]
  exact hvotes

theorem advance_eq_false
    (hbacked : ∀ h, 0 < ((ledger.tally h).votes .precommit).toNat →
      first.finality.quorum.isMet (ledger.tally h).prevotes = true)
    (hsingle : 1 < first.finality.quorum.votes.toNat ∨ again.heights .precommit = []) :
    (synced'.advance counted').1 = false := by
  rw [Bool.eq_false_iff]
  intro hadvanced
  obtain ⟨height, hhighest, hlt⟩ := Finality.advance_fst_iff.mp hadvanced
  obtain ⟨⟨hmem, hmet⟩, -⟩ := Ledger.highestWhere?_eq_some_iff.mp hhighest
  have hrule := (Finality.sameRule_of_read hagain.read).trans hrepeats.rule
  have hquorum : synced'.quorum = first.finality.quorum :=
    congrArg VotingRules.quorum hrule.rules_eq
  have hvotes : (counted'.tally height).precommits.toNat =
      (stored.tally height).precommits.toNat + (again.heights .precommit).count height :=
    hagain.counts_ledger.votes .precommit height
  rw [hquorum] at hmet
  by_cases hh : height ∈ again.heights .precommit
  · have hzero := hrepeats.precommits_eq_zero hfirst hagain hbacked hh
    have honce := List.nodup_iff_count_le_one.mp (hagain.counts_ledger.nodup .precommit) height
    have hseveral : 1 < first.finality.quorum.votes.toNat :=
      hsingle.resolve_right (List.ne_nil_of_mem hh)
    rw [Quorum.isMet_iff] at hmet
    omega
  · -- The height had its precommits already, and the first round saw them.
    rw [List.count_eq_zero.mpr hh, Nat.add_zero, UInt64.toNat_inj] at hvotes
    have hstored : height ∈ stored.tallies :=
      (hrepeats.mem_counted_iff hfirst hagain height).mp hmem
    have hpruned := Ledger.isPruned_prune? hfirst.prunes
    rw [hvotes, hpruned.tally height hstored] at hmet
    have hquorumFirst : synced.quorum = first.finality.quorum :=
      congrArg VotingRules.quorum (Finality.sameRule_of_read hfirst.read).rules_eq
    have hle := Finality.le_finalized_advance (f := synced)
      ((hpruned.mem_iff height).mp hstored).1 (hquorumFirst ▸ hmet)
    rw [hrepeats.finalized_eq hfirst hagain, UInt64.lt_iff_toNat_lt] at hlt
    omega

theorem returns_none (hnot : (synced'.advance counted').1 = false) :
    again.addition.verdict = .accepted none ∧
      again.addition.finality.finalized = first.addition.finality.finalized ∧
      Finality.marker again.viewAfter = Finality.marker again.view := by
  obtain ⟨hverdict, hfinality, -⟩ := hagain.addition_eq
  refine ⟨?_, ?_, ?_⟩
  · rw [hverdict, hnot]
    rfl
  · rw [hfinality, Finality.finalized_advance_of_not hnot, hrepeats.finalized_eq hfirst hagain,
      hfirst.addition_eq.2.1]
  · rw [hagain.marker_viewAfter, hnot]
    rfl

theorem viewAfter_eq_view (hnot : (synced'.advance counted').1 = false)
    (hnone : again.heights .precommit = []) : again.viewAfter = again.view := by
  have hsame : after = stored :=
    (hrepeats.after_eq_counted hfirst hagain).trans (hrepeats.counted_eq_stored hfirst hagain hnone)
  funext key
  rw [hagain.viewAfter_eq, hnot, if_neg (by simp)]
  by_cases hkey : Ledger.key = key
  · rw [if_pos hkey, ← hkey, hrepeats.records.ledger, hfirst.viewAfter_ledger, hsame]
  · rw [if_neg hkey]

theorem addsLate
    (hbacked : ∀ h, 0 < ((ledger.tally h).votes .precommit).toNat →
      first.finality.quorum.isMet (ledger.tally h).prevotes = true) :
    again.AddsLate first stored after := by
  have hprevotes := hrepeats.heights_prevote_eq_nil hfirst hagain
  have hprecommits : ∀ h, h ∈ again.heights .precommit ↔ first.IsLate stored h :=
    fun h => ⟨hrepeats.isLate_of_mem hfirst hagain, hrepeats.mem_of_isLate hfirst hagain⟩
  have hnil : (∀ h, ¬ first.IsLate stored h) → again.heights .precommit = [] := by
    intro hnone
    rw [List.eq_nil_iff_forall_not_mem]
    exact fun h => mt (hprecommits h).mp (hnone h)
  have hadvance : 2 ≤ first.finality.validators.toNat ∨ (∀ h, ¬ first.IsLate stored h) →
      (synced'.advance counted').1 = false :=
    fun hsingle => hrepeats.advance_eq_false hfirst hagain hbacked
      (hsingle.imp Quorum.one_lt_votes hnil)
  have hcounts := hagain.counts_ledger
  obtain rfl := hrepeats.after_eq_counted hfirst hagain
  have hprevoteCount : ∀ h, (again.heights .prevote).count h = 0 := by simp [hprevotes]
  have hgenerator := congrArg Header.generator hrepeats.header
  refine ⟨Round.isAccepted_iff.mpr ⟨_, _, _, _, _, hagain⟩, hprevotes, hprecommits,
    hrepeats.mem_counted_iff hfirst hagain, ?late, ?tally, ?votesOf,
    ?prevoted, ?precommitted, ?cases, ?returns, ?unchanged⟩
  case late =>
      intro h hlate
      have hprevote := hcounts.votes .prevote h
      have hprecommit := hcounts.votes .precommit h
      rw [hprevoteCount] at hprevote
      rw [List.count_eq_one_of_mem (hcounts.nodup .precommit) ((hprecommits h).mpr hlate)]
        at hprecommit
      exact ⟨UInt64.toNat_inj.mp hprevote, hprecommit⟩
  case tally =>
      intro h hnot
      refine Tally.ext_votes fun kind => ?_
      rw [hcounts.votes]
      cases kind with
      | prevote => rw [hprevoteCount, Nat.add_zero]
      | precommit => rw [List.count_eq_zero.mpr (mt (hprecommits h).mp hnot), Nat.add_zero]
  case votesOf =>
      intro a ha
      refine VoteHeights.ext_highest fun kind => ?_
      refine (hagain.highest_cases kind a).resolve_right fun hother => ha ?_
      rw [hother.1, hgenerator]
  case prevoted =>
      refine (hagain.highest_cases .prevote _).resolve_right fun hother => ?_
      rw [hprevotes] at hother
      simp at hother
  case precommitted =>
      intro h hlate
      rw [← hgenerator]
      exact hcounts.reached .precommit h ((hprecommits h).mpr hlate)
  case cases =>
      exact (hagain.highest_cases .precommit _).imp_right fun hlate => (hprecommits _).mp hlate.2
  case returns => exact fun hsingle => hrepeats.returns_none hfirst hagain (hadvance hsingle)
  case unchanged =>
      exact fun hnone =>
        hrepeats.viewAfter_eq_view hfirst hagain (hadvance (.inr hnone)) (hnil hnone)

end Repeats

end Round

/-! ## Runs -/

theorem acceptedHeaders_eq_nil {rounds : List Round}
    (hrejected : ∀ r ∈ rounds, r.isAccepted = false) : acceptedHeaders rounds = [] := by
  rw [List.eq_nil_iff_forall_not_mem]
  intro header hheader
  obtain ⟨r, hr, haccepted, -⟩ := mem_acceptedHeaders.mp hheader
  rw [hrejected r hr] at haccepted
  simp at haccepted

namespace Node

variable {node : Node} {headers before rest : List Header} {header : Header}

theorem run_append : node.run (headers ++ rest) = (node.run headers).run rest :=
  List.foldl_append

theorem run_of_rejected (hrejected : ∀ r ∈ node.rounds headers, r.isAccepted = false) :
    (node.run headers).gadget.finality = node.gadget.finality ∧
      (node.run headers).store = node.store := by
  induction headers generalizing node with
  | nil => exact ⟨rfl, rfl⟩
  | cons first rest ih =>
      obtain ⟨hfinality, hstore⟩ :=
        next_of_not_accepted (hrejected (node.round first) List.mem_cons_self)
      have hrest : ∀ r ∈ (node.next first).rounds rest, r.isAccepted = false :=
        fun r hr => hrejected r (List.mem_cons_of_mem _ hr)
      obtain ⟨hfinalityRest, hstoreRest⟩ := ih hrest
      exact ⟨hfinalityRest.trans hfinality, hstoreRest.trans hstore⟩

theorem round_of_rejected (hrejected : ∀ r ∈ node.rounds headers, r.isAccepted = false) :
    (node.run headers).round header = node.round header := by
  obtain ⟨hfinality, hstore⟩ := run_of_rejected hrejected
  unfold round
  rw [hfinality, hstore, run_db, run_registry]

section Replay

variable (hfresh : node.IsFresh) (haccepted : ((node.run before).round header).isAccepted = true)
  (hascending : node.IsAscending (before ++ [header]))

include hfresh haccepted hascending

theorem get?_concat_of_near {k : Height}
    (hnear : header.height.toNat - (node.run before).gadget.finality.reach.toNat ≤ k.toNat)
    (hlt : k.toNat < header.height.toNat) :
    (node.run (before ++ [header])).store.headers.get? k =
      (node.run before).store.headers.get? k := by
  have hinsert : (node.run (before ++ [header])).store.headers =
      (node.run before).store.headers.insert header := by
    rw [run_concat, headers_next, if_pos haccepted]
  unfold IsAscending at hascending
  rw [accepted_concat_of_accepted haccepted, List.pairwise_append] at hascending
  have habove : ∀ p ∈ (node.run before).store.headers.headers, p.height < header.height :=
    fun p hp => hascending.2.2 p (mem_accepted_of_retained hfresh hp) header List.mem_cons_self
  have hretained := (node.run before).gadget.finality.reach_lt_retained
  have hsame : (node.run before).gadget.finality.retained = node.gadget.finality.retained :=
    congrArg (Word.satMul · 5) parameters_run.1
  rw [hinsert]
  refine Window.get?_congr fun h hh => ⟨fun hmem => ?_, fun hmem => ?_⟩
  · refine (Window.mem_insert hmem).resolve_left fun heq => ?_
    rw [← hh, heq] at hlt
    exact Nat.lt_irrefl _ hlt
  · refine Window.mem_insert_of_near habove (List.mem_cons_of_mem _ hmem) ?_
    rw [capacity_run hfresh, ← hsame, hh]
    omega

theorem repeats_concat
    (hvoter : ∀ validators validators',
      node.gadget.registry (node.run before).view = .ok validators →
      node.gadget.registry (node.run (before ++ [header])).view = .ok validators' →
      VotingRules.voter header validators' = VotingRules.voter header validators) :
    ((node.run (before ++ [header])).round header).Repeats ((node.run before).round header) where
  header := rfl
  rule :=
    ⟨parameters_run.1.trans parameters_run.1.symm, parameters_run.2.trans parameters_run.2.symm⟩
  records := by
    rw [run_concat]
    have hview : (((node.run before).next header).round header).view =
        ((node.run before).round header).viewAfter := view_next
    rw [hview]
    exact .refl _
  trail hforged :=
    Header.trail_congr_of_lt (Finality.reach_pos _) hforged fun _ hnear hlt =>
      get?_concat_of_near hfresh haccepted hascending hnear hlt
  voter validators validators' hfirst hagain := by
    have hbefore : (node.run before).gadget.registry = node.gadget.registry := run_registry
    have hafter : (node.run (before ++ [header])).gadget.registry = node.gadget.registry :=
      run_registry
    refine hvoter validators validators' ?_ ?_
    · rw [← hbefore]
      exact hfirst
    · rw [← hafter]
      exact hagain

theorem replay_concat
    (hvoter : ∀ validators validators',
      node.gadget.registry (node.run before).view = .ok validators →
      node.gadget.registry (node.run (before ++ [header])).view = .ok validators' →
      VotingRules.voter header validators' = VotingRules.voter header validators) :
    let first := (node.run before).round header
    let again := (node.run (before ++ [header])).round header
    ∃ stored, Ledger.load again.view = .ok stored ∧
      ((∃ e, again.addition.verdict = .rejected e) ∧ again.viewAfter = again.view ∨
        ∃ after, Ledger.load again.viewAfter = .ok after ∧ again.AddsLate first stored after) := by
  intro first again
  have hrepeats := repeats_concat hfresh haccepted hascending hvoter
  have hrounds : node.rounds (before ++ [header]) = node.rounds before ++ [first] := rounds_concat
  obtain ⟨voters, hcard, hgenerators⟩ := exists_generators_of_ascending hascending
  rw [hrounds] at hgenerators
  have hvoters : ∀ r ∈ node.rounds before ++ [first], r.ballot?.isSome = true →
      r.header.generator ∈ voters := fun r hr hballot =>
    hgenerators r.header (header_mem_acceptedHeaders hr hballot)
      (Round.height_pos_of_ballot? hballot)
  have hgenerator : 0 < header.height.toNat → header.generator ∈ voters :=
    hgenerators header (mem_acceptedHeaders.mpr ⟨first, by simp, haccepted, rfl⟩)
  -- What the first round stored is what the second one reads.
  obtain ⟨synced, ledger, validators, counted, stored, happlied⟩ :=
    Round.isAccepted_iff.mp haccepted
  obtain ⟨loaded, hload, htallied⟩ := exists_tallied (isRun hfresh before) hcard
    fun r hr => hvoters r (List.mem_append_left _ hr)
  have hview : first.view = (node.run before).store.view node.db := view_round
  have hbefore : first.view.SameRecords ((node.run before).store.view node.db) :=
    hview ▸ .refl first.view
  obtain rfl := happlied.ledger_eq hbefore hload
  obtain ⟨hstep, hwritten⟩ := htallied.apply happlied parameters_run.1 hcard hvoters
  refine ⟨stored, hrepeats.records.load_eq.trans hwritten, ?_⟩
  cases hagain : again.isAccepted with
  | false =>
      refine .inl ⟨?_, Round.viewAfter_of_not_accepted hagain⟩
      have hcounts : again.addition.verdict ≠ .overflowed := by
        refine Round.verdict_ne_overflowed fun synced' ledger' validators' hread => ?_
        have hledger := (Finality.read_eq_ok_iff.mp hread).1
        rw [hrepeats.records.load_eq, hwritten] at hledger
        obtain rfl := Except.ok.inj hledger
        exact hstep.exists_counted hcard hvoters synced'.rules again.store.headers
          fun _ hvoter => hgenerator (Nat.zero_lt_of_lt (VotingRules.voter_eq_ok hvoter).1)
      unfold Round.isAccepted at hagain
      cases hverdict : again.addition.verdict with
      | accepted advanced => simp [hverdict] at hagain
      | rejected e => exact ⟨e, rfl⟩
      | overflowed => exact absurd hverdict hcounts
  | true =>
      obtain ⟨synced', ledger', validators', counted', after, happlied'⟩ :=
        Round.isAccepted_iff.mp hagain
      obtain rfl := happlied'.ledger_eq hrepeats.records hwritten
      have hvotersAgain : ∀ r ∈ node.rounds before ++ [first] ++ [again],
          r.ballot?.isSome = true → r.header.generator ∈ voters := by
        intro r hr hballot
        rcases List.mem_append.mp hr with hold | hlast
        · exact hvoters r hold hballot
        · obtain rfl := List.mem_singleton.mp hlast
          exact hgenerator (Round.height_pos_of_ballot? hballot)
      have hstored := (hstep.apply happlied' parameters_run.1 hcard hvotersAgain).2
      have hquorum : first.finality.quorum =
          Quorum.ofValidators node.gadget.finality.validators :=
        congrArg Quorum.ofValidators parameters_run.1
      refine .inr ⟨after, hstored, hrepeats.addsLate happlied happlied' fun h hpos => ?_⟩
      rw [hquorum]
      exact htallied.quorum h hpos

end Replay

/-- What the header accepted last does when it is applied once more, if it is not turned down. Its
registry may answer anything, as long as it names the same voter for the header both times. -/
theorem replay_addsLate (hfresh : node.IsFresh)
    (haccepted : ((node.run before).round header).isAccepted = true)
    (hrejected : ∀ r ∈ (node.run (before ++ [header])).rounds rest, r.isAccepted = false)
    (hascending : node.IsAscending (before ++ header :: rest))
    (hvoter : ∀ validators validators',
      node.gadget.registry (node.run before).view = .ok validators →
      node.gadget.registry (node.run (before ++ header :: rest)).view = .ok validators' →
      VotingRules.voter header validators' = VotingRules.voter header validators) :
    let first := (node.run before).round header
    let again := (node.run (before ++ header :: rest)).round header
    ∃ stored, Ledger.load again.view = .ok stored ∧
      ((∃ e, again.addition.verdict = .rejected e) ∧ again.viewAfter = again.view ∨
        ∃ after, Ledger.load again.viewAfter = .ok after ∧
          again.AddsLate first stored after) := by
  intro first again
  have hsplit : before ++ header :: rest = (before ++ [header]) ++ rest := by simp
  have hagain : again = (node.run (before ++ [header])).round header := by
    show (node.run (before ++ header :: rest)).round header = _
    rw [hsplit, run_append, round_of_rejected hrejected]
  have hview : (node.run (before ++ header :: rest)).view =
      (node.run (before ++ [header])).view := congrArg Round.view hagain
  have hnone : (node.run (before ++ [header])).accepted rest = [] :=
    acceptedHeaders_eq_nil hrejected
  have hascendingFirst : node.IsAscending (before ++ [header]) := by
    unfold IsAscending at hascending ⊢
    rwa [hsplit, accepted_append, hnone, List.append_nil] at hascending
  rw [hview] at hvoter
  rw [hagain]
  exact replay_concat hfresh haccepted hascendingFirst hvoter

set_option maxRecDepth 4000 in
/-- The second of two validators brings height 1 to a quorum, and precommits it as its header is
applied once more, a contradicting one having been turned down in between. -/
theorem replay_addsLate_of_two :
    let node := Node.start 2 (by decide) 0 [⟨.ofNat 1, true, 0⟩, ⟨.ofNat 2, true, 0⟩]
    let before : List Header := [⟨1, .ofNat 1, .ofNat 0, .ofNat 1, 0, 0, 0, 0⟩]
    let header : Header := ⟨2, .ofNat 2, .ofNat 1, .ofNat 2, 0, 0, 0, 0⟩
    let rest : List Header := [⟨3, .ofNat 3, .ofNat 2, .ofNat 2, 0, 0, 0, 0⟩]
    let first := (node.run before).round header
    let again := (node.run (before ++ header :: rest)).round header
    first.isAccepted = true ∧ again.isAccepted = true ∧ ∃ stored after,
      Ledger.load again.view = .ok stored ∧ Ledger.load again.viewAfter = .ok after ∧
        again.AddsLate first stored after := by
  intro node before header rest first again
  have hfirst : first.isAccepted = true := by cbv
  have hagain : again.isAccepted = true := by cbv
  have hrejected : ∀ r ∈ (node.run (before ++ [header])).rounds rest, r.isAccepted = false := by
    intro r hr
    obtain rfl := List.mem_singleton.mp hr
    cbv
  have hheaders : node.accepted (before ++ header :: rest) = before ++ [header] := by cbv
  have hascending : node.IsAscending (before ++ header :: rest) := by
    unfold IsAscending
    rw [hheaders]
    decide +kernel
  obtain ⟨stored, hstored, ⟨⟨e, hverdict⟩, -⟩ | ⟨after, hafter, hlate⟩⟩ :=
    replay_addsLate isFresh_start hfirst hrejected hascending
      fun validators validators' hvalidators hvalidators' => by
        obtain rfl := Except.ok.inj (hvalidators.symm.trans hvalidators')
        rfl
  · obtain ⟨advanced, haccepted⟩ : ∃ advanced, again.addition.verdict = .accepted advanced :=
      ⟨none, by cbv⟩
    rw [haccepted] at hverdict
    simp at hverdict
  · exact ⟨hfirst, hagain, stored, after, hstored, hafter, hlate⟩

/-- A registry that lists nobody until a ledger is written. -/
def lateRegistry (members : List Validator) : Registry := fun view =>
  match view Ledger.key with
  | .ok (some _) => .ok members
  | _ => .ok []

set_option maxRecDepth 4000 in
/-- A second application is not without effect: it may add a precommit, finalize a height where
there is a single validator, and count a prevote if the registry lists the generator only then. -/
theorem replay_counts :
    let first : Header := ⟨1, .ofNat 1, .ofNat 0, .ofNat 1, 0, 0, 0, 0⟩
    let second : Header := ⟨2, .ofNat 2, .ofNat 1, .ofNat 2, 0, 0, 0, 2⟩
    let members : List Validator := [⟨.ofNat 1, true, 0⟩, ⟨.ofNat 2, true, 0⟩]
    let two := ((start 2 (by decide) 0 members).run [first, second]).round second
    let one := ((start 1 (by decide) 0 [⟨.ofNat 2, true, 0⟩]).run [first, second]).round second
    let node := start 2 (by decide) 0 members
    let listed := (({ node with
      gadget := { node.gadget with registry := lateRegistry members } }).run [first]).round first
    (two.addition.verdict = .accepted none ∧
        (Ledger.load two.view).map (fun l => l.tally 1) = .ok ⟨2, 0⟩ ∧
        (Ledger.load two.viewAfter).map (fun l => l.tally 1) = .ok ⟨2, 1⟩) ∧
      one.addition.verdict = .accepted (some 1) ∧
      listed.addition.verdict = .accepted none ∧
        (Ledger.load listed.view).map (fun l => l.tally 1) = .ok ⟨0, 0⟩ ∧
        (Ledger.load listed.viewAfter).map (fun l => l.tally 1) = .ok ⟨1, 0⟩ := by
  intro first second members two one node listed
  refine ⟨⟨?_, ?_, ?_⟩, ?_, ?_, ?_, ?_⟩ <;> cbv

end Node

end FinalityGadget
