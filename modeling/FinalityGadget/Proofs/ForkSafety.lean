import FinalityGadget.Proofs.Participants

/-!
# Finality is safe across forks

Whoever finalizes a height has a quorum of precommits for it, and so does whoever finalizes another
height on another branch. Two quorums share an honest validator. Once it precommitted a height on
one branch, it does not prevote that height or a higher one on the other branch before a quorum of
others did: the header that precommits would name the one that prevotes, and its history would
leave the chain there, above the precommitted height.
-/

namespace FinalityGadget

section Round

variable {r : Round}

theorem Round.previouslyForged_lt_of_prevote {h : Height} (hh : h ∈ r.heights .prevote) :
    r.header.previouslyForged.toNat < h.toNat := by
  obtain ⟨ballot, hballot, hmem⟩ := Round.exists_ballot?_of_mem hh
  obtain ⟨_, _, _, _, _, _, -, -, hrules⟩ := Round.exists_cast hballot
  exact ((VotingRules.mem_prevotes_iff hrules).mp hmem).2.1

theorem Round.IsTruthful.le_prevoted_of_precommit (htruthful : r.IsTruthful) {h : Height}
    (hh : h ∈ r.heights .precommit) : h.toNat ≤ r.header.prevoted.toNat := by
  obtain ⟨ballot, hballot, hmem⟩ := Round.exists_ballot?_of_mem hh
  obtain ⟨synced, ledger, validators, counted, pruned, validator, happlied, -, -⟩ :=
    Round.exists_cast hballot
  obtain ⟨m, -, hsynced⟩ := (Finality.read_eq_ok_iff.mp happlied.read).2
  have hmet := happlied.counts_ledger.quorum h hh
  have hledger : h ∈ ledger.tallies := by
    have hpos := Quorum.votes_pos r.finality.validators_pos
    have hvotes := Quorum.isMet_iff.mp hmet
    apply Ledger.mem_of_prevotes_pos
    exact Nat.lt_of_lt_of_le hpos hvotes
  rw [htruthful.prevoted_eq happlied, hsynced]
  exact Finality.le_prevotedIn hledger hmet

end Round

/-! ## Precommits on one branch withhold prevotes on the other -/

/-- A header `x` that precommits a height withholds the prevotes of its generator for that height
and higher ones from a branch that is not prevoted that far: a header `y` there would have to come
before `x`, and the history of `x` among the retained headers would leave the chain above it. -/
theorem Round.prevote_lt_of_precommit {x y : Round} {a h : Height} (htruthful : x.IsTruthful)
    (hcommit : a ∈ x.heights .precommit) (hvote : h ∈ y.heights .prevote)
    (hclaim : y.header.prevoted.toNat < a.toNat)
    (hxy : x.header.Acknowledges y.header ∨ y.header.Acknowledges x.header)
    (hretained : ∀ p ∈ x.store.headers.headers, p.generator = x.header.generator →
      y.header.height.toNat ≤ p.height.toNat →
      p.Acknowledges y.header ∨ y.header.Acknowledges p) : h.toNat < a.toNat := by
  by_contra hge
  have hforgedY := Round.previouslyForged_lt_of_prevote hvote
  have hheightY := Round.le_height_of_vote hvote
  have hle : y.header.height.toNat ≤ x.header.previouslyForged.toNat := by
    rcases hxy with hacknowledges | hacknowledges
    · exact hacknowledges.forged
    · have hprevoted := htruthful.le_prevoted_of_precommit hcommit
      have := hacknowledges.prevoted
      omega
  obtain ⟨ballot, hballot, hmem⟩ := Round.exists_ballot?_of_mem hcommit
  obtain ⟨_, _, _, _, _, validator, -, hvoter, hrules⟩ := Round.exists_cast hballot
  obtain ⟨hforgedX, -, -⟩ := VotingRules.voter_eq_ok hvoter
  obtain ⟨-, hlowest, -, -, floor, hfloor, hfloorLe⟩ := VotingRules.mem_precommits hrules hmem
  unfold VotingRules.lowestFor at hlowest
  have hclosed : ∀ p ∈ x.store.headers.headers, p.generator = x.header.generator →
      y.header.height.toNat ≤ p.height.toNat → p.previouslyForged.toNat < p.height.toNat →
      y.header.height.toNat ≤ p.previouslyForged.toNat := by
    intro p hp hpGenerator hpHeight hpForged
    rcases hretained p hp hpGenerator hpHeight with hacknowledges | hacknowledges
    · exact hacknowledges.forged
    · have := hacknowledges.forged
      omega
  have hlt := Header.lt_precommitFloor (by omega) (by omega) hle hforgedX hclosed hfloor
  omega

/-! ## Quorums behind finalized heights -/

section Run

variable {n : Word} {genesis : Height} {rounds : List Round} {view : View}

variable {members : List Validator} {a : Height}

theorem quorum_of_verdict (hrun : Run n genesis rounds view)
    (hmembers : (participants members).card ≤ n.toNat)
    (hregistry : ∀ r ∈ rounds, r.registry = .fixed members) {r : Round} (hr : r ∈ rounds)
    (hverdict : r.addition.verdict = .accepted (some a)) :
    (Quorum.ofValidators n).votes.toNat ≤ (votersOf rounds .precommit a).card := by
  induction hrun with
  | start => simp at hr
  | @step rounds view after last hrun hn hgenesis hbefore hafter ih =>
      have hregistryOld : ∀ r ∈ rounds, r.registry = .fixed members :=
        fun r hr => hregistry r (List.mem_append_left _ hr)
      rcases List.mem_append.mp hr with hold | hlast
      · have hquorum := ih hregistryOld hold
        exact hquorum.trans (Finset.card_le_card votersOf_subset_concat)
      · obtain rfl := List.mem_singleton.mp hlast
        have haccepted : r.isAccepted = true := by
          unfold Round.isAccepted
          rw [hverdict]
        obtain ⟨synced, ledger, validators, counted, pruned, happlied⟩ :=
          Round.isAccepted_iff.mp haccepted
        have htallied := happlied.tallied hrun hbefore hmembers hregistryOld
        have hmet := (happlied.precommits_of_verdict hverdict).2
        rw [Finality.quorum, hn, Quorum.isMet_iff] at hmet
        have hle : ((counted.tally a).votes .precommit).toNat ≤
            (votersOf (rounds ++ [r]) .precommit a).card :=
          htallied.votes_counted_le_card happlied.counts_ledger
        exact hmet.trans hle

theorem exists_verdict_of_marker (hrun : Run n genesis rounds view)
    (hmarker : Finality.marker view = .ok (some a)) :
    ∃ r ∈ rounds, r.addition.verdict = .accepted (some a) := by
  induction hrun with
  | start hledger hnone =>
      simp [Finality.marker_of_none hnone] at hmarker
  | @step rounds view after r hrun hn hgenesis hbefore hafter ih =>
      rw [hafter.marker_eq] at hmarker
      have hold : Finality.marker r.view = .ok (some a) →
          ∃ r' ∈ rounds ++ [r], r'.addition.verdict = .accepted (some a) := by
        intro hview
        rw [hbefore.marker_eq] at hview
        obtain ⟨r', hr', hverdict⟩ := ih hview
        exact ⟨r', List.mem_append_left _ hr', hverdict⟩
      cases haccepted : r.isAccepted with
      | false =>
          rw [Round.viewAfter_of_not_accepted haccepted] at hmarker
          exact hold hmarker
      | true =>
          obtain ⟨synced, ledger, validators, counted, pruned, happlied⟩ :=
            Round.isAccepted_iff.mp haccepted
          rcases happlied.marker_eq_or_verdict hmarker with hview | ⟨height, hheight, hverdict⟩
          · exact hold hview
          · obtain rfl := Option.some.inj hheight
            exact ⟨r, by simp, hverdict⟩

theorem exists_verdict_of_mem_rounds (hrun : Run n genesis rounds view) {r : Round}
    (hr : r ∈ rounds) (hmarker : Finality.marker r.viewAfter = .ok (some a)) :
    ∃ r' ∈ rounds, r'.addition.verdict = .accepted (some a) := by
  induction hrun with
  | start => simp at hr
  | @step rounds view after last hrun hn hgenesis hbefore hafter ih =>
      rcases List.mem_append.mp hr with hold | hlast
      · obtain ⟨r', hr', hverdict⟩ := ih hold
        exact ⟨r', List.mem_append_left _ hr', hverdict⟩
      · obtain rfl := List.mem_singleton.mp hlast
        exact exists_verdict_of_marker (.step hrun hn hgenesis hbefore (.refl _)) hmarker

/-! ## A branch without a quorum at a height -/

/-- No prevote quorum is met from a height on, and nothing is finalized there; the `locked`
validators did not prevote it either. -/
structure StaysBelow (n : Word) (a : Height) (locked : Finset Address) (rounds : List Round)
    (view : View) : Prop where
  quorums : ∀ ledger, Ledger.load view = .ok ledger → ∀ h, h ∈ ledger.tallies →
    (Quorum.ofValidators n).isMet (ledger.tally h).prevotes = true → h.toNat < a.toNat
  marker : ∀ m, Finality.marker view = .ok m → (m.getD 0).toNat < a.toNat
  prevotes : ∀ r ∈ rounds, r.header.generator ∈ locked →
    ∀ h ∈ r.heights .prevote, h.toNat < a.toNat
  verdicts : ∀ r ∈ rounds, ∀ h, r.addition.verdict = .accepted (some h) → h.toNat < a.toNat

theorem Finality.prevoted_ofRecords_lt {f : Finality} {m : Option Height} {ledger : Ledger}
    (hgenesis : f.genesis.toNat < a.toNat) (hmarker : (m.getD 0).toNat < a.toNat)
    (hquorums : ∀ h, h ∈ ledger.tallies → f.quorum.isMet (ledger.tally h).prevotes = true →
      h.toNat < a.toNat) : (f.ofRecords m ledger).prevoted.toNat < a.toNat := by
  show ((ledger.highestWhere? fun tally => f.quorum.isMet tally.prevotes).getD
    (max (m.getD 0) f.genesis)).toNat < a.toNat
  cases hhighest : ledger.highestWhere? fun tally => f.quorum.isMet tally.prevotes with
  | none =>
      rw [Option.getD_none, Word.toNat_max]
      omega
  | some highest =>
      obtain ⟨hmem, hmet⟩ := (Ledger.highestWhere?_eq_some_iff.mp hhighest).1
      exact hquorums highest hmem hmet

namespace StaysBelow

variable {locked : Finset Address} {after : View} {r : Round}

theorem of_not_accepted (hstays : StaysBelow n a locked rounds view)
    (hbefore : r.view.SameRecords view) (hafter : after.SameRecords r.viewAfter)
    (hnot : r.isAccepted = false) : StaysBelow n a locked (rounds ++ [r]) after := by
  have hview := Round.viewAfter_of_not_accepted hnot
  rw [hview] at hafter
  refine ⟨fun ledger hload => ?_, fun m hm => ?_, fun r' hr' hgenerator h hh => ?_,
    fun r' hr' h hverdict => ?_⟩
  · rw [hafter.load_eq, hbefore.load_eq] at hload
    exact hstays.quorums ledger hload
  · rw [hafter.marker_eq, hbefore.marker_eq] at hm
    exact hstays.marker m hm
  · rcases List.mem_append.mp hr' with hold | hlast
    · exact hstays.prevotes r' hold hgenerator h hh
    · rw [List.mem_singleton.mp hlast, Round.heights_of_not_accepted hnot] at hh
      simp at hh
  · rcases List.mem_append.mp hr' with hold | hlast
    · exact hstays.verdicts r' hold h hverdict
    · rw [List.mem_singleton.mp hlast] at hverdict
      unfold Round.isAccepted at hnot
      simp [hverdict] at hnot

/-- A quorum in a counted ledger shares a locked validator, which did not prevote from `a` on. -/
theorem of_accepted {synced : Finality} {ledger counted pruned : Ledger}
    {validators : List Validator} (hstays : StaysBelow n a locked rounds view)
    (htallied : Tallied n rounds ledger)
    (happlied : r.IsApplied synced ledger validators counted pruned)
    (hn : r.finality.validators = n) (hbefore : r.view.SameRecords view)
    (hafter : after.SameRecords r.viewAfter)
    (hwritten : Ledger.load r.viewAfter = .ok pruned)
    (hprevotes : r.header.generator ∈ locked → ∀ h ∈ r.heights .prevote, h.toNat < a.toNat)
    (hquorum : ∀ h, (Quorum.ofValidators n).votes.toNat ≤
      (votersOf (rounds ++ [r]) .prevote h).card →
      ∃ v ∈ votersOf (rounds ++ [r]) .prevote h, v ∈ locked) :
    StaysBelow n a locked (rounds ++ [r]) after := by
  have hall : ∀ r' ∈ rounds ++ [r], r'.header.generator ∈ locked →
      ∀ h ∈ r'.heights .prevote, h.toNat < a.toNat := by
    intro r' hr'
    rcases List.mem_append.mp hr' with hold | hlast
    · exact hstays.prevotes r' hold
    · rw [List.mem_singleton.mp hlast]
      exact hprevotes
  have hcounts := happlied.counts_ledger
  have hcounted : ∀ h, (Quorum.ofValidators n).isMet (counted.tally h).prevotes = true →
      h.toNat < a.toNat := by
    intro h hmet
    have hle : ((counted.tally h).votes .prevote).toNat ≤
        (votersOf (rounds ++ [r]) .prevote h).card := htallied.votes_counted_le_card hcounts
    obtain ⟨v, hv, hvlocked⟩ := hquorum h ((Quorum.isMet_iff.mp hmet).trans hle)
    obtain ⟨r', hr', rfl, hh⟩ := mem_votersOf.mp hv
    exact hall r' hr' hvlocked h hh
  have hverdict : ∀ h, r.addition.verdict = .accepted (some h) → h.toNat < a.toNat :=
    fun h hverdict => hcounted h (happlied.prevotes_of_verdict htallied hn hverdict).2
  have hpruned := Ledger.isPruned_prune? happlied.prunes
  refine ⟨fun written hload h hh hmet => ?_, fun m hm => ?_, hall, fun r' hr' h hr'Verdict => ?_⟩
  · rw [hafter.load_eq, hwritten] at hload
    obtain rfl := Except.ok.inj hload
    rw [hpruned.tally h hh] at hmet
    exact hcounted h hmet
  · rw [hafter.marker_eq] at hm
    rcases happlied.marker_eq_or_verdict hm with hview | ⟨height, rfl, hfinalized⟩
    · rw [hbefore.marker_eq] at hview
      exact hstays.marker m hview
    · exact hverdict height hfinalized
  · rcases List.mem_append.mp hr' with hold | hlast
    · exact hstays.verdicts r' hold h hr'Verdict
    · rw [List.mem_singleton.mp hlast] at hr'Verdict
      exact hverdict h hr'Verdict

end StaysBelow

/-- If every quorum shares a locked validator, and locked validators tell the truth and prevote no
height from `a` on as long as they claim less, then no quorum is met there. -/
theorem staysBelow (hrun : Run n genesis rounds view) (hgenesis : genesis.toNat < a.toNat)
    (hmembers : (participants members).card ≤ n.toNat)
    (hregistry : ∀ r ∈ rounds, r.registry = .fixed members) {locked : Finset Address}
    (hquorum : ∀ T, T ⊆ participants members → (Quorum.ofValidators n).votes.toNat ≤ T.card →
      ∃ v ∈ T, v ∈ locked)
    (htruthful : ∀ r ∈ rounds, r.isAccepted = true → r.header.generator ∈ locked → r.IsTruthful)
    (hlocked : ∀ r ∈ rounds, r.header.generator ∈ locked → r.header.prevoted.toNat < a.toNat →
      ∀ h ∈ r.heights .prevote, h.toNat < a.toNat) :
    StaysBelow n a locked rounds view := by
  induction hrun with
  | @start view hledger hmarker =>
      refine ⟨fun ledger hload h hh => ?_, fun m hm => ?_, by simp, by simp⟩
      · obtain rfl := Except.ok.inj ((Ledger.load_of_none hledger).symm.trans hload)
        simp [Ledger.empty] at hh
      · obtain rfl := Except.ok.inj ((Finality.marker_of_none hmarker).symm.trans hm)
        exact Nat.lt_of_le_of_lt (Nat.zero_le _) hgenesis
  | @step rounds view after r hrun hn hg hbefore hafter ih =>
      have hold : ∀ {r'}, r' ∈ rounds → r' ∈ rounds ++ [r] := fun hr' => List.mem_append_left _ hr'
      have hstays := ih (fun r' hr' => hregistry r' (hold hr'))
        (fun r' hr' => htruthful r' (hold hr')) (fun r' hr' => hlocked r' (hold hr'))
      cases haccepted : r.isAccepted with
      | false => exact hstays.of_not_accepted hbefore hafter haccepted
      | true =>
          obtain ⟨synced, ledger, validators, counted, pruned, happlied⟩ :=
            Round.isAccepted_iff.mp haccepted
          have htallied := happlied.tallied hrun hbefore hmembers
            fun r' hr' => hregistry r' (hold hr')
          have hwritten := happlied.load_written hrun hbefore hn hmembers hregistry
          refine hstays.of_accepted htallied happlied hn hbefore hafter hwritten ?_
            fun h => hquorum _ (votersOf_subset_participants hregistry)
          intro hgenerator
          apply hlocked r (by simp) hgenerator
          have htrue := htruthful r (by simp) haccepted hgenerator
          obtain ⟨hload, m, hmarker, hsynced⟩ := Finality.read_eq_ok_iff.mp happlied.read
          rw [htrue.prevoted_eq happlied, hsynced]
          apply Finality.prevoted_ofRecords_lt
          · rw [hg]
            exact hgenesis
          · rw [hbefore.marker_eq] at hmarker
            exact hstays.marker m hmarker
          · intro h hh hmet
            rw [hbefore.load_eq] at hload
            rw [Finality.quorum, hn] at hmet
            exact hstays.quorums ledger hload h hh hmet

end Run

/-! ## Two branches -/

/-- A branch of the chain: headers that are applied to a fresh node of `n` validators whose members
are fixed. -/
structure Branch (n : Word) (genesis : Height) (members : List Validator) where
  node : Node
  headers : List Header
  fresh : node.IsFresh
  validators_eq : node.gadget.finality.validators = n
  genesis_eq : node.gadget.finality.genesis = genesis
  registry_eq : node.gadget.registry = .fixed members

namespace Branch

variable {n : Word} {genesis : Height} {members : List Validator}

def rounds (A : Branch n genesis members) : List Round := A.node.rounds A.headers

def accepted (A : Branch n genesis members) : List Header := A.node.accepted A.headers

/-- What the state of a branch reads after its last header. -/
def view (A : Branch n genesis members) : View := (A.node.run A.headers).store.view A.node.db

/-- A height is finalized once it is returned on applying a header or written as the marker. -/
def Finalizes (A : Branch n genesis members) (h : Height) : Prop :=
  ∃ r ∈ A.rounds, r.addition.verdict = .accepted (some h) ∨
    Finality.marker r.viewAfter = .ok (some h)

/-- A validator whose headers tell the truth about their state and do not contradict each other, on
either of two branches. -/
structure IsHonest (A B : Branch n genesis members) (v : Address) : Prop where
  truthful : ∀ r ∈ A.rounds ++ B.rounds, r.isAccepted = true → r.header.generator = v →
    r.IsTruthful
  consistent : ∀ x ∈ A.accepted ++ B.accepted, ∀ y ∈ A.accepted ++ B.accepted,
    x.generator = v → y.generator = v → x.contradiction? y = none

variable {A B : Branch n genesis members}

theorem IsHonest.symm {v : Address} (h : IsHonest A B v) : IsHonest B A v where
  truthful r hr := h.truthful r (List.mem_append.mpr (List.mem_append.mp hr).symm)
  consistent x hx y hy := h.consistent x (List.mem_append.mpr (List.mem_append.mp hx).symm) y
    (List.mem_append.mpr (List.mem_append.mp hy).symm)

theorem isRun (A : Branch n genesis members) :
    Run n genesis A.rounds A.view := by
  have hrun := Node.isRun A.fresh A.headers
  rwa [A.validators_eq, A.genesis_eq] at hrun

theorem registry_eq_of_mem {r : Round} (hr : r ∈ A.rounds) : r.registry = .fixed members :=
  (Node.registry_of_mem_rounds hr).trans A.registry_eq

theorem exists_verdict {a : Height} (hfinalizes : A.Finalizes a) :
    ∃ r ∈ A.rounds, r.addition.verdict = .accepted (some a) := by
  obtain ⟨r, hr, hverdict | hmarker⟩ := hfinalizes
  · exact ⟨r, hr, hverdict⟩
  · exact exists_verdict_of_mem_rounds A.isRun hr hmarker

theorem header_mem_accepted {r : Round} (hr : r ∈ A.rounds) {kind : VoteKind} {h : Height}
    (hh : h ∈ r.heights kind) : r.header ∈ A.accepted := by
  obtain ⟨ballot, hballot, -⟩ := Round.exists_ballot?_of_mem hh
  exact mem_acceptedHeaders.mpr ⟨r, hr, Round.isAccepted_of_ballot? hballot, rfl⟩

theorem prevote_lt_of_precommit {f a h : Height} (hfa : f.toNat < a.toNat)
    (hdistinct : ∀ x ∈ A.accepted, ∀ y ∈ B.accepted,
      f.toNat < x.height.toNat → f.toNat < y.height.toNat → x.id ≠ y.id)
    {x y : Round} (hx : x ∈ A.rounds) (hy : y ∈ B.rounds)
    (hgenerator : x.header.generator = y.header.generator)
    (hhonest : IsHonest A B x.header.generator) (hcommit : a ∈ x.heights .precommit)
    (hvote : h ∈ y.heights .prevote) (hclaim : y.header.prevoted.toNat < a.toNat) :
    h.toNat < a.toNat := by
  by_cases hlow : h.toNat < a.toNat
  · exact hlow
  · have hxAccepted := header_mem_accepted hx hcommit
    have hyAccepted := header_mem_accepted hy hvote
    have hxHeight := Round.le_height_of_vote hcommit
    have hyHeight := Round.le_height_of_vote hvote
    have hacknowledges : ∀ p ∈ A.accepted, p.generator = x.header.generator →
        f.toNat < p.height.toNat → p.Acknowledges y.header ∨ y.header.Acknowledges p := by
      intro p hp hpGenerator hpHeight
      have hid := hdistinct p hp y.header hyAccepted hpHeight (by omega)
      have hnone := hhonest.consistent p (List.mem_append_left _ hp) y.header
        (List.mem_append_right _ hyAccepted) hpGenerator hgenerator.symm
      exact (Header.acknowledges_or (hpGenerator.trans hgenerator) hid hnone).symm
    obtain ⟨ballot, hballot, -⟩ := Round.exists_ballot?_of_mem hcommit
    have htruthful := hhonest.truthful x (List.mem_append_left _ hx)
      (Round.isAccepted_of_ballot? hballot) rfl
    refine Round.prevote_lt_of_precommit htruthful hcommit hvote hclaim ?_ ?_
    · exact hacknowledges x.header hxAccepted rfl (by omega)
    · intro p hp hpGenerator hpHeight
      have hpAccepted := Node.mem_accepted_of_mem_rounds A.fresh hx hp
      exact hacknowledges p hpAccepted hpGenerator (by omega)

theorem finalized_lt {f a b : Height} (hn : n.toNat < 2 ^ 63)
    (hmembers : (participants members).card ≤ n.toNat) (hgenesis : genesis.toNat ≤ f.toNat)
    (hdistinct : ∀ x ∈ A.accepted, ∀ y ∈ B.accepted,
      f.toNat < x.height.toNat → f.toNat < y.height.toNat → x.id ≠ y.id)
    {faulty : Finset Address} (hfaulty : 3 * faulty.card < n.toNat)
    (hhonest : ∀ v ∈ participants members, v ∉ faulty → IsHonest A B v)
    (hfa : f.toNat < a.toNat) (hA : A.Finalizes a) (hB : B.Finalizes b) : b.toNat < a.toNat := by
  obtain ⟨x, hx, hxVerdict⟩ := exists_verdict hA
  obtain ⟨y, hy, hyVerdict⟩ := exists_verdict hB
  have hquorumA := quorum_of_verdict A.isRun hmembers (fun r => registry_eq_of_mem) hx hxVerdict
  have hsubsetA : votersOf A.rounds .precommit a ⊆ participants members :=
    votersOf_subset_participants fun r => registry_eq_of_mem
  have hlockedHonest : ∀ v ∈ votersOf A.rounds .precommit a \ faulty, IsHonest A B v := by
    intro v hv
    obtain ⟨hvA, hvFaulty⟩ := Finset.mem_sdiff.mp hv
    exact hhonest v (hsubsetA hvA) hvFaulty
  have hstays : StaysBelow n a (votersOf A.rounds .precommit a \ faulty) B.rounds B.view := by
    refine staysBelow B.isRun (by omega) hmembers (fun r => registry_eq_of_mem) ?_ ?_ ?_
    · intro T hT hcard
      obtain ⟨v, hvA, hvT, hvFaulty⟩ :=
        Quorum.exists_common_of_quorums hn hmembers hfaulty hsubsetA hT hquorumA hcard
      exact ⟨v, hvT, Finset.mem_sdiff.mpr ⟨hvA, hvFaulty⟩⟩
    · intro r hr haccepted hlocked
      exact (hlockedHonest _ hlocked).truthful r (List.mem_append_right _ hr) haccepted rfl
    · intro r hr hlocked hclaim h hh
      obtain ⟨x, hx, hgenerator, hcommit⟩ := mem_votersOf.mp (Finset.mem_sdiff.mp hlocked).1
      have hhonestX := hlockedHonest _ hlocked
      rw [hgenerator] at hhonestX
      exact prevote_lt_of_precommit hfa hdistinct hx hr hgenerator.symm hhonestX hcommit hh hclaim
  exact hstays.verdicts y hy b hyVerdict

/-- Two branches that share no header above a height cannot both finalize a height above it, unless
a third of the validators is faulty. -/
theorem fork_safety {f : Height} (hn : n.toNat < 2 ^ 63)
    (hmembers : (participants members).card ≤ n.toNat) (hgenesis : genesis.toNat ≤ f.toNat)
    (hdistinct : ∀ x ∈ A.accepted, ∀ y ∈ B.accepted,
      f.toNat < x.height.toNat → f.toNat < y.height.toNat → x.id ≠ y.id)
    {faulty : Finset Address} (hfaulty : 3 * faulty.card < n.toNat)
    (hhonest : ∀ v ∈ participants members, v ∉ faulty → IsHonest A B v) :
    ¬ ∃ a b : Height, f.toNat < a.toNat ∧ f.toNat < b.toNat ∧ A.Finalizes a ∧ B.Finalizes b := by
  rintro ⟨a, b, hfa, hfb, hA, hB⟩
  have hba : b.toNat < a.toNat :=
    finalized_lt hn hmembers hgenesis hdistinct hfaulty hhonest hfa hA hB
  have hdistinct' : ∀ y ∈ B.accepted, ∀ x ∈ A.accepted,
      f.toNat < y.height.toNat → f.toNat < x.height.toNat → y.id ≠ x.id :=
    fun y hy x hx hyHeight hxHeight => (hdistinct x hx y hy hxHeight hyHeight).symm
  have hab : a.toNat < b.toNat :=
    finalized_lt hn hmembers hgenesis hdistinct' hfaulty
      (fun v hv hvFaulty => (hhonest v hv hvFaulty).symm) hfb hB hA
  omega

/-- A branch of a single participant, beside a member whose headers are not counted. -/
def ofOne (headers : List Header) :
    Branch 1 0 [⟨.ofNat 1, true, 0⟩, ⟨.ofNat 2, false, 0⟩] where
  node := .start 1 (by decide) 0 _
  headers := headers
  fresh := Node.isFresh_start
  validators_eq := rfl
  genesis_eq := rfl
  registry_eq := rfl

/-- The participant finalizes height 1 on one branch; only the other member forges on the other. -/
theorem fork_safety_of_one :
    let A := ofOne [⟨1, .ofNat 1, .ofNat 0, .ofNat 1, 0, 0, 0, 0⟩,
      ⟨2, .ofNat 2, .ofNat 1, .ofNat 1, 0, 0, 1, 1⟩]
    let B := ofOne [⟨1, .ofNat 3, .ofNat 0, .ofNat 2, 0, 0, 0, 0⟩]
    A.Finalizes 1 ∧ ¬ ∃ a b : Height, (0 : Height).toNat < a.toNat ∧
      (0 : Height).toNat < b.toNat ∧ A.Finalizes a ∧ B.Finalizes b := by
  intro A B
  have hacceptedA : A.accepted = A.headers := by cbv
  have hacceptedB : B.accepted = B.headers := by cbv
  have htruthful : ∀ r ∈ A.rounds ++ B.rounds, r.IsTruthful := by
    show ∀ r ∈ [_, _, _], Round.IsTruthful r
    simp only [List.forall_mem_cons, List.not_mem_nil, false_imp_iff, implies_true, and_true]
    refine ⟨?_, ?_, ?_⟩ <;> unfold Round.IsTruthful <;> cbv
  have hconsistent : ∀ x ∈ A.accepted ++ B.accepted, ∀ y ∈ A.accepted ++ B.accepted,
      x.contradiction? y = none := by
    rw [hacceptedA, hacceptedB]
    decide +kernel
  have hhonest : ∀ v, IsHonest A B v := fun v =>
    ⟨fun r hr _ _ => htruthful r hr, fun x hx y hy _ _ => hconsistent x hx y hy⟩
  have hdistinct : ∀ x ∈ A.accepted, ∀ y ∈ B.accepted,
      (0 : Height).toNat < x.height.toNat → (0 : Height).toNat < y.height.toNat → x.id ≠ y.id := by
    rw [hacceptedA, hacceptedB]
    decide +kernel
  refine ⟨⟨_, List.mem_cons_of_mem _ List.mem_cons_self, .inl (by cbv)⟩, ?_⟩
  have hmembers : (participants [⟨.ofNat 1, true, 0⟩, ⟨.ofNat 2, false, 0⟩]).card ≤
      (1 : Word).toNat := by decide +kernel
  have hfaulty : 3 * (∅ : Finset Address).card < (1 : Word).toNat := by decide
  exact fork_safety (by decide) hmembers (by decide) hdistinct hfaulty fun v _ _ => hhonest v

end Branch

end FinalityGadget
