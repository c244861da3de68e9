import FinalityGadget.Proofs.Dependence
import FinalityGadget.Proofs.Reload
import FinalityGadget.Proofs.RetainedHeaders

/-!
# Precommits are backed by prevotes

Along a chain every header acknowledges the retained headers of its generator, so a header that is
counted prevotes all the heights within its reach that it acknowledges. A height that a header
precommits is either such a height, or the history of the header leads to an earlier one of the
same generator that acknowledges it. Whoever precommits a height has therefore prevoted it.
-/

namespace FinalityGadget

/-! ## Vote heights are heights that were voted for -/

theorem Round.IsApplied.highest_cases {r : Round} {synced : Finality}
    {ledger counted pruned : Ledger} {validators : List Validator}
    (h : r.IsApplied synced ledger validators counted pruned) (kind : VoteKind) (a : Address) :
    (counted.votesOf a).highest kind = (ledger.votesOf a).highest kind ∨
      a = r.header.generator ∧ (counted.votesOf a).highest kind ∈ r.heights kind := by
  cases hballot : r.ballot? with
  | none =>
      rw [h.counted_of_ballot?_eq_none hballot]
      exact .inl rfl
  | some ballot =>
      obtain ⟨validator, -, -, hcast⟩ := h.ballot?_eq_some hballot
      rw [(Ledger.isCast_cast? hcast).votesOf]
      by_cases hgenerator : r.header.generator = a
      · rw [if_pos hgenerator, Ballot.highest_raise, Round.heights_of_ballot? hballot]
        cases hlast : (ballot.votes kind).getLast? with
        | none =>
            rw [hgenerator]
            exact .inl rfl
        | some last => exact .inr ⟨hgenerator.symm, List.mem_of_getLast? hlast⟩
      · rw [if_neg hgenerator]
        exact .inl rfl

section Run

variable {n : Word} {genesis : Height} {rounds : List Round} {view : View}

theorem highest_eq_zero_or_voted (hrun : Run n genesis rounds view) {voters : Finset Address}
    (hcard : voters.card ≤ Word.maxNat)
    (hvoters : ∀ r ∈ rounds, r.ballot?.isSome = true → r.header.generator ∈ voters)
    {ledger : Ledger} (hload : Ledger.load view = .ok ledger) (kind : VoteKind) (a : Address) :
    (ledger.votesOf a).highest kind = 0 ∨
      ∃ r ∈ rounds, r.header.generator = a ∧ (ledger.votesOf a).highest kind ∈ r.heights kind := by
  induction hrun generalizing ledger with
  | start hledger hmarker =>
      obtain rfl := Except.ok.inj ((Ledger.load_of_none hledger).symm.trans hload)
      rw [Ledger.votesOf_empty]
      cases kind <;> exact .inl rfl
  | @step rounds view after r hrun hn hgenesis hbefore hafter ih =>
      have hvotersOld : ∀ r ∈ rounds, r.ballot?.isSome = true → r.header.generator ∈ voters :=
        fun r hr => hvoters r (List.mem_append_left _ hr)
      have hold : ∀ {before : Ledger}, Ledger.load view = .ok before →
          (before.votesOf a).highest kind = 0 ∨ ∃ r' ∈ rounds ++ [r], r'.header.generator = a ∧
            (before.votesOf a).highest kind ∈ r'.heights kind := by
        intro before hbeforeLoad
        rcases ih hvotersOld hbeforeLoad with hzero | ⟨r', hr', hvoted⟩
        · exact .inl hzero
        · exact .inr ⟨r', List.mem_append_left _ hr', hvoted⟩
      rw [hafter.load_eq] at hload
      cases haccepted : r.isAccepted with
      | false =>
          rw [Round.viewAfter_of_not_accepted haccepted, hbefore.load_eq] at hload
          exact hold hload
      | true =>
          obtain ⟨synced, before, validators, counted, pruned, happlied⟩ :=
            Round.isAccepted_iff.mp haccepted
          obtain ⟨loaded, hloaded, htallied⟩ := exists_tallied hrun hcard hvotersOld
          obtain rfl := happlied.ledger_eq hbefore hloaded
          have hwritten := (htallied.apply happlied hn hcard hvoters).2
          obtain rfl := Except.ok.inj (hwritten.symm.trans hload)
          rw [(Ledger.isPruned_prune? happlied.prunes).votesOf]
          rcases happlied.highest_cases kind a with heq | ⟨hgenerator, hvote⟩
          · rw [heq]
            exact hold hloaded
          · exact .inr ⟨r, by simp, hgenerator.symm, hvote⟩

end Run

/-- A height that a header precommits but does not acknowledge itself is acknowledged by a retained
header of its generator. -/
theorem Round.exists_acknowledging {r : Round} {h : Height} (hcommit : h ∈ r.heights .precommit)
    (hle : h.toNat ≤ r.header.previouslyForged.toNat) :
    ∃ p ∈ r.store.headers.headers, p.generator = r.header.generator ∧
      p.previouslyForged.toNat < h.toNat ∧ h.toNat ≤ p.height.toNat := by
  by_contra hnone
  obtain ⟨ballot, hballot, hmem⟩ := Round.exists_ballot?_of_mem hcommit
  obtain ⟨_, _, _, _, _, validator, -, hvoter, hrules⟩ := Round.exists_cast hballot
  obtain ⟨hforged, -, -⟩ := VotingRules.voter_eq_ok hvoter
  obtain ⟨hvoted, hlowest, -, -, floor, hfloor, hfloorLe⟩ := VotingRules.mem_precommits hrules hmem
  unfold VotingRules.lowestFor at hlowest
  have hclosed : ∀ p ∈ r.store.headers.headers, p.generator = r.header.generator →
      h.toNat ≤ p.height.toNat → p.previouslyForged.toNat < p.height.toNat →
      h.toNat ≤ p.previouslyForged.toNat := by
    intro p hp hgenerator hpHeight _
    by_contra hpForged
    exact hnone ⟨p, hp, hgenerator, Nat.not_le.mp hpForged, hpHeight⟩
  have hlt := Header.lt_precommitFloor (by omega) (by omega) hle hforged hclosed hfloor
  omega

namespace Node

variable {node : Node} {headers : List Header} {header : Header} {members : List Validator}

/-! ## Chains -/

/-- The accepted headers form a chain: each is above those before it, has an id of its own and
names a lower height. -/
structure IsChain (node : Node) (headers : List Header) : Prop where
  ascending : node.IsAscending headers
  ids : ((node.accepted headers).map Header.id).Nodup
  forged : ∀ h ∈ node.accepted headers, h.previouslyForged.toNat < h.height.toNat

theorem IsChain.of_append {rest : List Header} (hchain : node.IsChain (headers ++ rest)) :
    node.IsChain headers := by
  obtain ⟨hascending, hids, hforged⟩ := hchain
  unfold IsAscending at hascending
  rw [accepted_append] at hascending hids hforged
  rw [List.map_append] at hids
  exact ⟨(List.pairwise_append.mp hascending).1, hids.of_append_left,
    fun h hh => hforged h (List.mem_append_left _ hh)⟩

theorem accepted_concat_of_accepted
    (haccepted : ((node.run headers).round header).isAccepted = true) :
    node.accepted (headers ++ [header]) = node.accepted headers ++ [header] := by
  rw [accepted_concat, if_pos haccepted]

theorem reach_eq {synced : Finality} {ledger counted pruned : Ledger} {validators : List Validator}
    (happlied : ((node.run headers).round header).IsApplied synced ledger validators counted
      pruned) : synced.rules.reach = node.gadget.finality.reach := by
  rw [(Finality.sameRule_of_read happlied.read).rules_eq]
  show Finality.reach (node.run headers).gadget.finality = _
  rw [Finality.reach, parameters_run.1]
  rfl

namespace IsChain

variable (hchain : node.IsChain (headers ++ [header]))
  (haccepted : ((node.run headers).round header).isAccepted = true)

include hchain haccepted

theorem height_lt {p : Header} (hp : p ∈ node.accepted headers) :
    p.height.toNat < header.height.toNat := by
  have hascending := hchain.ascending
  unfold IsAscending at hascending
  rw [accepted_concat_of_accepted haccepted, List.pairwise_append] at hascending
  exact UInt64.lt_iff_toNat_lt.mp (hascending.2.2 p hp header List.mem_cons_self)

theorem id_ne {p : Header} (hp : p ∈ node.accepted headers) : p.id ≠ header.id := by
  have hids := hchain.ids
  rw [accepted_concat_of_accepted haccepted, List.map_append] at hids
  intro heq
  refine (List.nodup_append.mp hids).2.2 p.id (List.mem_map_of_mem hp) header.id ?_ heq
  exact List.mem_map_of_mem List.mem_cons_self

theorem le_previouslyForged (hfresh : node.IsFresh) {p : Header}
    (hp : p ∈ (node.run headers).store.headers.headers)
    (hgenerator : p.generator = header.generator) :
    p.height.toNat ≤ header.previouslyForged.toNat := by
  obtain ⟨synced, ledger, validators, counted, pruned, happlied⟩ :=
    Round.isAccepted_iff.mp haccepted
  have hagree := (Finality.check_eq_ok_iff.mp happlied.checked).2
  cases hlast : (node.run headers).store.headers.lastBy? header.generator with
  | none =>
      have := List.find?_eq_none.mp hlast p hp
      simp [hgenerator] at this
  | some last =>
      obtain ⟨⟨hretained, hlastGenerator⟩, hhighest⟩ := Window.lastBy?_eq_some_iff.mp hlast
      have hlastAccepted := mem_accepted_of_retained hfresh hretained
      have hple := hhighest p hp hgenerator
      have hbelow := hchain.height_lt haccepted hlastAccepted
      have hforged := hchain.of_append.forged last hlastAccepted
      have hid := hchain.id_ne haccepted hlastAccepted
      rcases Header.acknowledges_or hlastGenerator hid (hagree last hlast) with hheader | hprevious
      · exact hple.trans hheader.forged
      · have := hprevious.forged
        omega

theorem prevote_le_previouslyForged (hfresh : node.IsFresh) {r : Round}
    (hr : r ∈ node.rounds headers) (hgenerator : r.header.generator = header.generator)
    {h : Height} (hvote : h ∈ r.heights .prevote)
    (hreach : header.height.toNat ≤ h.toNat + node.gadget.finality.reach.toNat) :
    h.toNat ≤ header.previouslyForged.toNat := by
  have hvoteLe := Round.le_height_of_vote hvote
  obtain ⟨ballot, hballot, -⟩ := Round.exists_ballot?_of_mem hvote
  have hmem : r.header ∈ node.accepted headers :=
    mem_acceptedHeaders.mpr ⟨r, hr, Round.isAccepted_of_ballot? hballot, rfl⟩
  have hretained : r.header ∈ (node.run headers).store.headers.headers := by
    refine mem_run_of_near hfresh hchain.of_append.ascending hmem fun top htop => ?_
    have hbelow := hchain.height_lt haccepted htop
    have hwindow := node.gadget.finality.reach_lt_retained
    omega
  exact hvoteLe.trans (hchain.le_previouslyForged haccepted hfresh hretained hgenerator)

theorem mem_prevotes (hfresh : node.IsFresh) (hregistry : node.gadget.registry = .fixed members)
    {validator : Validator} (hvoter : VotingRules.voter header members = .ok validator)
    {h : Height} (hactive : validator.activeFrom.toNat ≤ h.toNat)
    (hreach : header.height.toNat ≤ h.toNat + node.gadget.finality.reach.toNat)
    (hforged : header.previouslyForged.toNat < h.toNat) (hle : h.toNat ≤ header.height.toNat) :
    h ∈ ((node.run headers).round header).heights .prevote := by
  obtain ⟨synced, ledger, validators, counted, pruned, happlied⟩ :=
    Round.isAccepted_iff.mp haccepted
  obtain rfl := happlied.validators_eq_of_fixed (run_registry.trans hregistry)
  obtain ⟨ballot, hballot, hrules⟩ := happlied.exists_ballot?_of_voter hvoter
  have hreachEq : synced.rules.reach = node.gadget.finality.reach := reach_eq happlied
  rw [Round.heights_of_ballot? hballot]
  refine (VotingRules.mem_prevotes_iff hrules).mpr ⟨?_, hforged, ?_, hle⟩
  · -- The vote height was voted for, so it is acknowledged by the header or out of its reach.
    show ((ledger.votesOf header.generator).highest .prevote).toNat < h.toNat
    obtain ⟨voters, hcard, hvoters⟩ := exists_voters_of_ascending hchain.of_append.ascending
    have hload := (Finality.read_eq_ok_iff.mp happlied.read).1
    rw [view_round] at hload
    rcases highest_eq_zero_or_voted (isRun hfresh headers) hcard hvoters hload .prevote
      header.generator with hzero | ⟨r, hr, hgenerator, hvote⟩
    · rw [hzero]
      exact Nat.lt_of_le_of_lt (Nat.zero_le _) hforged
    · by_contra hnot
      have := hchain.prevote_le_previouslyForged haccepted hfresh hr hgenerator hvote (by omega)
      omega
  · show max (header.height.toNat - synced.rules.reach.toNat) validator.activeFrom.toNat ≤ h.toNat
    rw [hreachEq]
    omega

theorem mem_votersOf_of_precommit (hfresh : node.IsFresh)
    (hregistry : node.gadget.registry = .fixed members) {h : Height}
    (hcommit : h ∈ ((node.run headers).round header).heights .precommit) :
    header.generator ∈ votersOf (node.rounds (headers ++ [header])) .prevote h := by
  obtain ⟨ballot, hballot, hmem⟩ := Round.exists_ballot?_of_mem hcommit
  obtain ⟨synced, ledger, validators, counted, pruned, validator, happlied, hvoter, hrules⟩ :=
    Round.exists_cast hballot
  obtain rfl := happlied.validators_eq_of_fixed (run_registry.trans hregistry)
  obtain ⟨-, hlowest, hlt, -⟩ := VotingRules.mem_precommits hrules hmem
  replace hlowest : max (header.height.toNat - synced.rules.reach.toNat)
      validator.activeFrom.toNat ≤ h.toNat := hlowest
  replace hlt : h.toNat < header.height.toNat := hlt
  rw [reach_eq happlied] at hlowest
  by_cases hacknowledged : header.previouslyForged.toNat < h.toNat
  · refine mem_votersOf.mpr ⟨(node.run headers).round header, ?_, rfl, ?_⟩
    · rw [rounds_concat]
      exact List.mem_append_right _ List.mem_cons_self
    · exact hchain.mem_prevotes haccepted hfresh hregistry hvoter (by omega) (by omega)
        hacknowledged (by omega)
  · -- An earlier header acknowledges the height, and the headers up to it are a chain of their own.
    obtain ⟨p, hp, hgenerator, hforged, hle⟩ :=
      Round.exists_acknowledging hcommit (Nat.not_lt.mp hacknowledged)
    have hpAccepted := mem_accepted_of_retained hfresh hp
    have hbelow := hchain.height_lt haccepted hpAccepted
    obtain ⟨r, hr, hrAccepted, hheader⟩ := mem_acceptedHeaders.mp hpAccepted
    obtain ⟨earlier, later, hsplit⟩ := List.append_of_mem hr
    obtain ⟨before, q, after, rfl, -, rfl⟩ := exists_split_of_rounds hsplit
    obtain rfl : q = p := hheader
    have hqChain : node.IsChain (before ++ [q]) := by
      have hall : node.IsChain ((before ++ [q]) ++ (after ++ [header])) := by simpa using hchain
      exact hall.of_append
    have hqForged := hchain.of_append.forged q hpAccepted
    have hqVoter := VotingRules.voter_congr hvoter hgenerator hqForged
    refine mem_votersOf.mpr ⟨(node.run before).round q, ?_, hgenerator.symm, ?_⟩
    · rw [rounds_concat]
      exact List.mem_append_left _ hr
    · exact hqChain.mem_prevotes hrAccepted hfresh hregistry hqVoter (by omega) (by omega)
        hforged hle

end IsChain

theorem votersOf_precommit_subset (hfresh : node.IsFresh)
    (hregistry : node.gadget.registry = .fixed members) (hchain : node.IsChain headers)
    (h : Height) :
    votersOf (node.rounds headers) .precommit h ⊆ votersOf (node.rounds headers) .prevote h := by
  induction headers using List.reverseRecOn with
  | nil =>
      intro a ha
      obtain ⟨r, hr, -⟩ := mem_votersOf.mp ha
      simp [rounds] at hr
  | append_singleton headers header ih =>
      intro a ha
      obtain ⟨r, hr, rfl, hcommit⟩ := mem_votersOf.mp ha
      rw [rounds_concat] at hr
      rcases List.mem_append.mp hr with hold | hlast
      · have hbacked := ih hchain.of_append (mem_votersOf.mpr ⟨r, hold, rfl, hcommit⟩)
        rw [rounds_concat]
        exact votersOf_subset_concat hbacked
      · obtain rfl := List.mem_singleton.mp hlast
        obtain ⟨ballot, hballot, -⟩ := Round.exists_ballot?_of_mem hcommit
        exact hchain.mem_votersOf_of_precommit (Round.isAccepted_of_ballot? hballot) hfresh
          hregistry hcommit

/-- Along a chain, whoever precommits a height has prevoted it by then, and no stored height has
more precommits than prevotes. -/
theorem precommits_backed (hfresh : node.IsFresh)
    (hregistry : node.gadget.registry = .fixed members) (hchain : node.IsChain headers) :
    (∀ h, votersOf (node.rounds headers) .precommit h ⊆
        votersOf (node.rounds headers) .prevote h) ∧
      ∃ ledger, Ledger.load ((node.run headers).store.view node.db) = .ok ledger ∧
        ∀ h, (ledger.tally h).precommits ≤ (ledger.tally h).prevotes := by
  have hbacked := votersOf_precommit_subset hfresh hregistry hchain
  obtain ⟨voters, hcard, hvoters⟩ := exists_voters_of_ascending hchain.ascending
  obtain ⟨ledger, hload, htallied⟩ := exists_tallied (isRun hfresh headers) hcard hvoters
  refine ⟨hbacked, ledger, hload, fun h => ?_⟩
  by_cases hmem : h ∈ ledger.tallies
  · have hvotes : ∀ kind, ((ledger.tally h).votes kind).toNat =
        (votersOf (node.rounds headers) kind h).card := fun kind => by
      rw [card_votersOf (htallied.nodup kind), htallied.votes kind h hmem]
    have hle : ((ledger.tally h).votes .precommit).toNat ≤
        ((ledger.tally h).votes .prevote).toNat := by
      rw [hvotes, hvotes]
      exact Finset.card_le_card (hbacked h)
    exact UInt64.le_iff_toNat_le.mpr hle
  · rw [Ledger.tally_of_not_mem hmem]
    exact UInt64.le_refl 0

set_option maxRecDepth 4000 in
/-- Validator 1 prevotes height 1 with its first header and precommits it with its second one, by
which it acknowledges the first one only. -/
theorem precommits_backed_of_three :
    let node := Node.start 2 (by decide) 0 [⟨.ofNat 1, true, 0⟩, ⟨.ofNat 2, true, 0⟩]
    let headers : List Header :=
      [⟨1, .ofNat 1, .ofNat 0, .ofNat 1, 0, 0, 0, 0⟩, ⟨2, .ofNat 2, .ofNat 1, .ofNat 2, 0, 0, 0, 0⟩,
        ⟨3, .ofNat 3, .ofNat 2, .ofNat 1, 0, 0, 1, 1⟩]
    node.IsChain headers ∧
      (∀ h, votersOf (node.rounds headers) .precommit h ⊆
        votersOf (node.rounds headers) .prevote h) ∧
      .ofNat 1 ∈ votersOf (node.rounds headers) .precommit 1 ∧
      ∃ ledger, Ledger.load ((node.run headers).store.view node.db) = .ok ledger ∧
        ∀ h, (ledger.tally h).precommits ≤ (ledger.tally h).prevotes := by
  intro node headers
  have hheaders : node.accepted headers = headers := by cbv
  have hchain : node.IsChain headers := by
    refine ⟨?_, ?_, ?_⟩
    · unfold IsAscending
      rw [hheaders]
      decide +kernel
    · rw [hheaders]
      decide +kernel
    · rw [hheaders]
      decide +kernel
  have hcommit : .ofNat 1 ∈ votersOf (node.rounds headers) .precommit 1 := by
    have hvotes : votesCast (node.rounds headers) .precommit = [⟨.ofNat 1, 1⟩] := by cbv
    simp [votersOf, hvotes]
  have hregistry : node.gadget.registry =
      .fixed [⟨.ofNat 1, true, 0⟩, ⟨.ofNat 2, true, 0⟩] := rfl
  obtain ⟨hbacked, hstored⟩ := precommits_backed isFresh_start hregistry hchain
  exact ⟨hchain, hbacked, hcommit, hstored⟩

end Node

end FinalityGadget
