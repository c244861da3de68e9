import FinalityGadget.Proofs.Tallies

/-!
# Heights read back

A round keeps the heights that follow from the ledger before it is pruned, while whoever reads its
state finds the pruned one. The finalized heights are the same. The prevoted heights are, too, as
long as the prevoted height is retained; once it lies a whole window below the highest height that
was voted for, the state falls back to the finalized height.
-/

namespace FinalityGadget

namespace Finality

variable {f : Finality} {counted pruned : Ledger} {window : Nat}

/-- The prevoted height stays the same exactly if pruning keeps it, or if it is the finalized
height, which takes the place of a height that is dropped. -/
theorem prevotedIn_isPruned_iff (hpruned : counted.IsPruned window pruned)
    (hwindow : 0 < window) :
    f.prevotedIn pruned = f.prevotedIn counted ↔
      f.prevotedIn counted ∈ pruned.tallies ∨ f.prevotedIn counted = f.finalized := by
  unfold prevotedIn
  cases hcounted : counted.highestWhere? fun tally => f.quorum.isMet tally.prevotes with
  | none =>
      have hnone := Ledger.highestWhere?_eq_none_iff.mp hcounted
      have hprunedNone :
          (pruned.highestWhere? fun tally => f.quorum.isMet tally.prevotes) = none := by
        refine Ledger.highestWhere?_eq_none_iff.mpr fun h hh => ?_
        rw [hpruned.tally h hh]
        exact hnone h ((hpruned.mem_iff h).mp hh).1
      simp [hprunedNone]
  | some highest =>
      obtain ⟨⟨hmem, hmet⟩, hmax⟩ := Ledger.highestWhere?_eq_some_iff.mp hcounted
      have hmaxPruned : ∀ h, h ∈ pruned.tallies → f.quorum.isMet (pruned.tally h).prevotes = true →
          h.toNat ≤ highest.toNat := by
        intro h hh hhMet
        rw [hpruned.tally h hh] at hhMet
        exact hmax h ((hpruned.mem_iff h).mp hh).1 hhMet
      rcases hpruned.mem_or_dropped hwindow hmem with hkept | ⟨top, htop, hdropped⟩
      · have hsome : (pruned.highestWhere? fun tally => f.quorum.isMet tally.prevotes) =
            some highest := by
          refine Ledger.highestWhere?_eq_some_iff.mpr ⟨⟨hkept, ?_⟩, hmaxPruned⟩
          rwa [hpruned.tally highest hkept]
        simp [hsome, hkept]
      · have habove : ∀ h, h ∈ pruned.tallies → highest.toNat < h.toNat := by
          intro h hh
          have := ((hpruned.mem_iff h).mp hh).2 top ((hpruned.mem_iff top).mp htop).1
          omega
        have hnone : (pruned.highestWhere? fun tally => f.quorum.isMet tally.prevotes) = none := by
          refine Ledger.highestWhere?_eq_none_iff.mpr fun h hh => ?_
          by_contra hhMet
          have hle := hmaxPruned h hh (by simpa using hhMet)
          have hlt := habove h hh
          omega
        have hnot : highest ∉ pruned.tallies := fun hh => Nat.lt_irrefl _ (habove highest hh)
        simp [hnone, hnot, eq_comm]

theorem prevotedIn_kept_or_dropped (hpruned : counted.IsPruned window pruned)
    (hwindow : 0 < window) :
    f.prevotedIn counted ∈ pruned.tallies ∨ f.prevotedIn counted = f.finalized ∨
      ∃ top, top ∈ pruned.tallies ∧ (f.prevotedIn counted).toNat + window ≤ top.toNat := by
  unfold prevotedIn
  cases hcounted : counted.highestWhere? fun tally => f.quorum.isMet tally.prevotes with
  | none => exact .inr (.inl rfl)
  | some highest =>
      have hmem := (Ledger.highestWhere?_eq_some_iff.mp hcounted).1.1
      exact (hpruned.mem_or_dropped hwindow hmem).imp_right .inr

end Finality

namespace Round

variable {r : Round} {synced : Finality} {ledger counted pruned : Ledger}
  {validators : List Validator}

theorem IsApplied.load_finality (h : r.IsApplied synced ledger validators counted pruned)
    (hload : Ledger.load r.viewAfter = .ok pruned) :
    Finality.load r.finality.validators r.finality.genesis r.viewAfter =
      .ok { r.addition.finality with prevoted := r.addition.finality.prevotedIn pruned } := by
  obtain ⟨m, hmarker, hsynced⟩ := (Finality.read_eq_ok_iff.mp h.read).2
  have hparameters := Finality.parameters_advance synced counted
  have hvalidators : r.finality.validators = (synced.advance counted).2.validators := by
    rw [hparameters.1, hsynced]
    rfl
  have hgenesis : r.finality.genesis = (synced.advance counted).2.genesis := by
    rw [hparameters.2, hsynced]
    rfl
  obtain ⟨m', hmarkerAfter, hmax⟩ := h.exists_marker_viewAfter
  rw [Finality.load_of_records r.finality.validators_pos hload hmarkerAfter, h.addition_eq.2.1]
  rw [hgenesis] at hmax
  simp only [Finality.ofRecords, hvalidators, hgenesis, hmax]
  rfl

end Round

section Run

variable {n : Word} {genesis : Height} {rounds : List Round} {view : View}

/-- Headers of ascending heights above 0 are no more than there are such heights, and so are their
generators. -/
theorem exists_generators_of_ascending
    (hascending : (acceptedHeaders rounds).Pairwise fun a b => a.height < b.height) :
    ∃ voters : Finset Address, voters.card ≤ Word.maxNat ∧
      ∀ header ∈ acceptedHeaders rounds, 0 < header.height.toNat → header.generator ∈ voters := by
  let above := (acceptedHeaders rounds).filter fun h => 0 < h.height
  refine ⟨(above.map Header.generator).toFinset, ?_, fun header hheader hpos => ?_⟩
  · have hnodup : (above.map fun h => h.height.toNat).Nodup := by
      refine List.pairwise_map.mpr ((hascending.filter _).imp fun {a b} hlt => ?_)
      rw [UInt64.lt_iff_toNat_lt] at hlt
      omega
    have hsubset : (above.map fun h => h.height.toNat).toFinset ⊆ Finset.Icc 1 Word.maxNat := by
      intro k hk
      obtain ⟨h, hh, rfl⟩ := List.mem_map.mp (List.mem_toFinset.mp hk)
      have hpos : 0 < h.height := by simpa using (List.mem_filter.mp hh).2
      rw [UInt64.lt_iff_toNat_lt] at hpos
      exact Finset.mem_Icc.mpr ⟨hpos, Word.toNat_le _⟩
    calc (above.map Header.generator).toFinset.card
        ≤ (above.map Header.generator).length := List.toFinset_card_le _
      _ = (above.map fun h => h.height.toNat).length := by rw [List.length_map, List.length_map]
      _ = (above.map fun h => h.height.toNat).toFinset.card :=
        (List.toFinset_card_of_nodup hnodup).symm
      _ ≤ (Finset.Icc 1 Word.maxNat).card := Finset.card_le_card hsubset
      _ = Word.maxNat := by rw [Nat.card_Icc, Nat.add_sub_cancel]
  · rw [List.mem_toFinset]
    refine List.mem_map_of_mem (List.mem_filter.mpr ⟨hheader, ?_⟩)
    rw [decide_eq_true_iff, UInt64.lt_iff_toNat_lt]
    exact hpos

theorem Round.height_pos_of_ballot? {r : Round} (hballot : r.ballot?.isSome = true) :
    0 < r.header.height.toNat := by
  obtain ⟨ballot, hballot⟩ := Option.isSome_iff_exists.mp hballot
  obtain ⟨_, _, _, _, _, validator, -, hvoter, -⟩ := Round.exists_cast hballot
  exact Nat.lt_of_le_of_lt (Nat.zero_le _) (VotingRules.voter_eq_ok hvoter).1

theorem header_mem_acceptedHeaders {r : Round} (hr : r ∈ rounds)
    (hballot : r.ballot?.isSome = true) : r.header ∈ acceptedHeaders rounds := by
  obtain ⟨ballot, hballot⟩ := Option.isSome_iff_exists.mp hballot
  exact mem_acceptedHeaders.mpr ⟨r, hr, Round.isAccepted_of_ballot? hballot, rfl⟩

theorem exists_voters_of_ascending
    (hascending : (acceptedHeaders rounds).Pairwise fun a b => a.height < b.height) :
    ∃ voters : Finset Address, voters.card ≤ Word.maxNat ∧
      ∀ r ∈ rounds, r.ballot?.isSome = true → r.header.generator ∈ voters := by
  obtain ⟨voters, hcard, hgenerators⟩ := exists_generators_of_ascending hascending
  exact ⟨voters, hcard, fun r hr hballot =>
    hgenerators r.header (header_mem_acceptedHeaders hr hballot)
      (Round.height_pos_of_ballot? hballot)⟩

theorem exists_vote_of_mem (hrun : Run n genesis rounds view) {voters : Finset Address}
    (hcard : voters.card ≤ Word.maxNat)
    (hvoters : ∀ r ∈ rounds, r.ballot?.isSome = true → r.header.generator ∈ voters)
    {ledger : Ledger} (hload : Ledger.load view = .ok ledger) {h : Height}
    (hmem : h ∈ ledger.tallies) : ∃ r ∈ rounds, ∃ kind, h ∈ r.heights kind := by
  induction hrun generalizing ledger with
  | start hledger hmarker =>
      obtain rfl := Except.ok.inj ((Ledger.load_of_none hledger).symm.trans hload)
      simp [Ledger.empty] at hmem
  | @step rounds view after r hrun hn hgenesis hbefore hafter ih =>
      have hvotersOld : ∀ r ∈ rounds, r.ballot?.isSome = true → r.header.generator ∈ voters :=
        fun r hr => hvoters r (List.mem_append_left _ hr)
      have hold : ∀ {before : Ledger}, Ledger.load view = .ok before → h ∈ before.tallies →
          ∃ r' ∈ rounds ++ [r], ∃ kind, h ∈ r'.heights kind := by
        intro before hbeforeLoad hbeforeMem
        obtain ⟨r', hr', hvote⟩ := ih hvotersOld hbeforeLoad hbeforeMem
        exact ⟨r', List.mem_append_left _ hr', hvote⟩
      rw [hafter.load_eq] at hload
      cases haccepted : r.isAccepted with
      | false =>
          rw [Round.viewAfter_of_not_accepted haccepted, hbefore.load_eq] at hload
          exact hold hload hmem
      | true =>
          obtain ⟨synced, before, validators, counted, pruned, happlied⟩ :=
            Round.isAccepted_iff.mp haccepted
          obtain ⟨loaded, hloaded, htallied⟩ := exists_tallied hrun hcard hvotersOld
          obtain rfl := happlied.ledger_eq hbefore hloaded
          have hwritten := (htallied.apply happlied hn hcard hvoters).2
          obtain rfl := Except.ok.inj (hwritten.symm.trans hload)
          have hpruned := Ledger.isPruned_prune? happlied.prunes
          have hcounted := ((hpruned.mem_iff h).mp hmem).1
          rcases (happlied.counts_ledger.mem_iff h).mp hcounted with hbeforeMem | ⟨kind, hvote⟩
          · exact hold hloaded hbeforeMem
          · exact ⟨r, by simp, kind, hvote⟩

theorem height_le_of_mem {r : Round} {ledger : Ledger} {h : Height}
    (hrun : Run n genesis (rounds ++ [r]) view) {voters : Finset Address}
    (hcard : voters.card ≤ Word.maxNat)
    (hvoters : ∀ r' ∈ rounds ++ [r], r'.ballot?.isSome = true → r'.header.generator ∈ voters)
    (hascending : (acceptedHeaders (rounds ++ [r])).Pairwise fun a b => a.height < b.height)
    (haccepted : r.isAccepted = true) (hload : Ledger.load view = .ok ledger)
    (hmem : h ∈ ledger.tallies) : h.toNat ≤ r.header.height.toNat := by
  obtain ⟨r', hr', kind, hvote⟩ := exists_vote_of_mem hrun hcard hvoters hload hmem
  have hle := Round.le_height_of_vote hvote
  rcases List.mem_append.mp hr' with hold | hlast
  · obtain ⟨ballot, hballot, -⟩ := Round.exists_ballot?_of_mem hvote
    have hmemOld : r'.header ∈ acceptedHeaders rounds :=
      mem_acceptedHeaders.mpr ⟨r', hold, Round.isAccepted_of_ballot? hballot, rfl⟩
    rw [acceptedHeaders_concat, haccepted, if_pos rfl, List.pairwise_append] at hascending
    have hlt := hascending.2.2 _ hmemOld r.header List.mem_cons_self
    rw [UInt64.lt_iff_toNat_lt] at hlt
    omega
  · rwa [List.mem_singleton.mp hlast] at hle

/-- What reading back the state after a round yields, where `ledger` is the one it wrote. -/
structure Round.ReadsBack (r : Round) (ledger : Ledger) : Prop where
  load_ledger : Ledger.load r.viewAfter = .ok ledger
  /-- The prevoted height is the one of the ledger; all else is as the round keeps it. -/
  load : Finality.load r.finality.validators r.finality.genesis r.viewAfter =
    .ok { r.addition.finality with prevoted := r.addition.finality.prevotedIn ledger }
  faithful_iff :
    Finality.load r.finality.validators r.finality.genesis r.viewAfter = .ok r.addition.finality ↔
      r.addition.finality.prevoted ∈ ledger.tallies ∨
        r.addition.finality.prevoted = r.addition.finality.finalized
  /-- Heights are kept for a whole window. -/
  faithful_of_lt : r.header.height.toNat <
      r.addition.finality.prevoted.toNat + r.finality.retained.toNat →
    Finality.load r.finality.validators r.finality.genesis r.viewAfter = .ok r.addition.finality

theorem readsBack_last {r : Round} (hrun : Run n genesis rounds view)
    (hn : r.finality.validators = n) (hgenesis : r.finality.genesis = genesis)
    (hbefore : r.view.SameRecords view)
    (hascending : (acceptedHeaders (rounds ++ [r])).Pairwise fun a b => a.height < b.height)
    (haccepted : r.isAccepted = true) : ∃ ledger, r.ReadsBack ledger := by
  obtain ⟨voters, hcard, hvoters⟩ := exists_voters_of_ascending hascending
  obtain ⟨synced, ledger, validators, counted, pruned, happlied⟩ :=
    Round.isAccepted_iff.mp haccepted
  obtain ⟨loaded, hload, htallied⟩ := exists_tallied hrun hcard fun r hr =>
    hvoters r (List.mem_append_left _ hr)
  obtain rfl := happlied.ledger_eq hbefore hload
  have hwritten := (htallied.apply happlied hn hcard hvoters).2
  have hreload := happlied.load_finality hwritten
  have hpruned := Ledger.isPruned_prune? happlied.prunes
  have hprevoted : r.addition.finality.prevoted = r.addition.finality.prevotedIn counted := by
    rw [happlied.addition_eq.2.1]
    exact Finality.prevoted_advance _ _
  have hfaithful : Finality.load r.finality.validators r.finality.genesis r.viewAfter =
        .ok r.addition.finality ↔
      r.addition.finality.prevotedIn pruned = r.addition.finality.prevoted := by
    rw [hreload, Except.ok.injEq]
    constructor
    · exact fun heq => congrArg Finality.prevoted heq
    · intro heq
      rw [heq]
  have hiff := Finality.prevotedIn_isPruned_iff (f := r.addition.finality) hpruned
    r.finality.retained_pos
  rw [← hprevoted] at hiff
  refine ⟨pruned, hwritten, hreload, hfaithful.trans hiff, fun hlt => ?_⟩
  rw [hfaithful, hiff]
  have hcases := Finality.prevotedIn_kept_or_dropped (f := r.addition.finality) hpruned
    r.finality.retained_pos
  rw [← hprevoted] at hcases
  rcases hcases with hkept | hfinalized | ⟨top, htop, hdropped⟩
  · exact .inl hkept
  · exact .inr hfinalized
  · have hle := height_le_of_mem (.step hrun hn hgenesis hbefore (.refl _)) hcard hvoters
      hascending haccepted hwritten htop
    omega

/-- The heights that an accepted round keeps are read back from the state that it wrote exactly if
the ledger written retains the prevoted height, or if that is the finalized height. -/
theorem exists_readsBack (hrun : Run n genesis rounds view)
    (hascending : (acceptedHeaders rounds).Pairwise fun a b => a.height < b.height) {r : Round}
    (hr : r ∈ rounds) (haccepted : r.isAccepted = true) :
    r.finality.validators = n ∧ r.finality.genesis = genesis ∧ ∃ ledger, r.ReadsBack ledger := by
  induction hrun with
  | start => simp at hr
  | @step rounds view after last hrun hn hgenesis hbefore hafter ih =>
      rcases List.mem_append.mp hr with hold | hlast
      · refine ih ?_ hold
        rw [acceptedHeaders_concat] at hascending
        exact (List.pairwise_append.mp hascending).1
      · obtain rfl := List.mem_singleton.mp hlast
        exact ⟨hn, hgenesis, readsBack_last hrun hn hgenesis hbefore hascending haccepted⟩

set_option maxRecDepth 2000 in
/-- Two validators prevote height 1, which is dropped as one of them votes for height 12. -/
theorem readsBack_of_dropped :
    let node := Node.start 2 (by decide) 0 [⟨.ofNat 1, true, 0⟩, ⟨.ofNat 2, true, 0⟩]
    let first : List Header :=
      [⟨1, .ofNat 1, .ofNat 0, .ofNat 1, 0, 0, 0, 0⟩, ⟨2, .ofNat 2, .ofNat 1, .ofNat 2, 0, 0, 0, 0⟩]
    let last : Header := ⟨12, .ofNat 12, .ofNat 11, .ofNat 2, 0, 0, 2, 1⟩
    let r := (node.run first).round last
    r.isAccepted = true ∧ (∃ ledger, r.ReadsBack ledger) ∧ r.addition.finality.prevoted = 1 ∧
      (Finality.load 2 0 r.viewAfter).map Finality.prevoted = .ok 0 := by
  intro node first last r
  have hmem : r ∈ node.rounds (first ++ [last]) := by
    rw [Node.rounds_concat]
    simp [r]
  have haccepted : r.isAccepted = true := by cbv
  have hheaders : node.accepted (first ++ [last]) = first ++ [last] := by cbv
  have hascending :
      (node.accepted (first ++ [last])).Pairwise fun a b => a.height < b.height := by
    rw [hheaders]
    decide +kernel
  refine ⟨haccepted, ?_, by cbv, by cbv⟩
  exact (exists_readsBack (Node.isRun Node.isFresh_start _) hascending hmem haccepted).2.2

end Run

end FinalityGadget
