import FinalityGadget.Proofs.Dependence
import FinalityGadget.Proofs.HonestRuns
import FinalityGadget.Proofs.Reload

/-!
# Where the prevoted height falls

A height with a prevote quorum is only forgotten by pruning, together with all heights below it. As
long as some retained height has a quorum the prevoted height of a state therefore never falls.
Once the last of these heights is dropped it falls back to the finalized height, which lies lower.
-/

namespace FinalityGadget

theorem Round.mem_prevotes_of_le {r : Round} {h k : Height} (hh : h ∈ r.heights .prevote)
    (hle : h.toNat ≤ k.toNat) (hk : k.toNat ≤ r.header.height.toNat) : k ∈ r.heights .prevote := by
  obtain ⟨ballot, hballot, hmem⟩ := exists_ballot?_of_mem hh
  obtain ⟨_, _, _, _, _, _, -, -, hrules⟩ := exists_cast hballot
  rw [heights_of_ballot? hballot]
  obtain ⟨habove, hforged, hlowest, -⟩ := (VotingRules.mem_prevotes_iff hrules).mp hmem
  exact (VotingRules.mem_prevotes_iff hrules).mpr ⟨by omega, by omega, by omega, hk⟩

section Run

variable {n : Word} {genesis : Height} {rounds : List Round} {view : View}

theorem le_numVotes_concat {r : Round} {kind : VoteKind} {h : Height} :
    numVotes rounds kind h ≤ numVotes (rounds ++ [r]) kind h := by
  rw [numVotes_concat]
  exact Nat.le_add_right _ _

/-- Whoever prevotes a height prevotes those above it, as far as every header reaches. -/
theorem numVotes_le_of_le (hnodup : (votesCast rounds .prevote).Nodup) {h k : Height}
    (hle : h.toNat ≤ k.toNat)
    (hk : ∀ header ∈ acceptedHeaders rounds, k.toNat ≤ header.height.toNat) :
    numVotes rounds .prevote h ≤ numVotes rounds .prevote k := by
  rw [← card_votersOf hnodup, ← card_votersOf hnodup]
  apply Finset.card_le_card
  intro v hv
  obtain ⟨r, hr, rfl, hh⟩ := mem_votersOf.mp hv
  obtain ⟨ballot, hballot, -⟩ := Round.exists_ballot?_of_mem hh
  have hheader := hk r.header
    (mem_acceptedHeaders.mpr ⟨r, hr, Round.isAccepted_of_ballot? hballot, rfl⟩)
  exact mem_votersOf.mpr ⟨r, hr, rfl, r.mem_prevotes_of_le hh hle hheader⟩

/-- A height that a quorum voted for is retained with all its votes, or dropped. -/
theorem Tallied.settles {ledger : Ledger} (htallied : Tallied n rounds ledger) (hn : 0 < n)
    {h : Height} (hvotes : (Quorum.ofValidators n).votes.toNat ≤ numVotes rounds .prevote h) :
    ledger.Settles n h := by
  have hpos : 0 < numVotes rounds .prevote h := Nat.lt_of_lt_of_le (Quorum.votes_pos hn) hvotes
  obtain ⟨v, hv, hheight⟩ := exists_vote_of_numVotes_pos hpos
  rcases htallied.dropped .prevote v hv with hmem | hdropped
  · rw [hheight] at hmem
    refine .inr (.inl ⟨hmem, Quorum.isMet_iff.mpr ?_⟩)
    have hexact : ((ledger.tally h).prevotes).toNat = numVotes rounds .prevote h :=
      htallied.votes .prevote h hmem
    omega
  · rw [hheight] at hdropped
    exact .inr (.inr hdropped)

theorem quorum_of_marker (hrun : Run n genesis rounds view) {voters : Finset Address}
    (hcard : voters.card ≤ Word.maxNat)
    (hvoters : ∀ r ∈ rounds, r.ballot?.isSome = true → r.header.generator ∈ voters) {a : Height}
    (hmarker : Finality.marker view = .ok (some a)) :
    (Quorum.ofValidators n).votes.toNat ≤ numVotes rounds .prevote a := by
  induction hrun with
  | start hledger hnone =>
      simp [Finality.marker_of_none hnone] at hmarker
  | @step rounds view after r hrun hn hgenesis hbefore hafter ih =>
      have hvotersOld : ∀ r ∈ rounds, r.ballot?.isSome = true → r.header.generator ∈ voters :=
        fun r hr => hvoters r (List.mem_append_left _ hr)
      have hold : Finality.marker r.view = .ok (some a) →
          (Quorum.ofValidators n).votes.toNat ≤ numVotes (rounds ++ [r]) .prevote a := by
        intro hview
        rw [hbefore.marker_eq] at hview
        exact (ih hvotersOld hview).trans le_numVotes_concat
      rw [hafter.marker_eq] at hmarker
      cases haccepted : r.isAccepted with
      | false =>
          rw [Round.viewAfter_of_not_accepted haccepted] at hmarker
          exact hold hmarker
      | true =>
          obtain ⟨synced, ledger, validators, counted, pruned, happlied⟩ :=
            Round.isAccepted_iff.mp haccepted
          rcases happlied.marker_eq_or_verdict hmarker with hview | ⟨height, hheight, hverdict⟩
          · exact hold hview
          · obtain rfl := Option.some.inj hheight
            obtain ⟨loaded, hload, htallied⟩ := exists_tallied hrun hcard hvotersOld
            obtain rfl := happlied.ledger_eq hbefore hload
            have hmet := (happlied.prevotes_of_verdict htallied hn hverdict).2
            rw [Quorum.isMet_iff] at hmet
            have hvotes : ((counted.tally a).votes .prevote).toNat ≤
                numVotes (rounds ++ [r]) .prevote a :=
              htallied.votes_counted_le happlied.counts_ledger
            exact hmet.trans hvotes

theorem finalized_le_prevotedIn (hrun : Run n genesis rounds view) {voters : Finset Address}
    (hcard : voters.card ≤ Word.maxNat)
    (hvoters : ∀ r ∈ rounds, r.ballot?.isSome = true → r.header.generator ∈ voters)
    (habove : ∀ header ∈ acceptedHeaders rounds, genesis < header.height)
    {ledger : Ledger} (htallied : Tallied n rounds ledger) {m : Option Height}
    (hmarker : Finality.marker view = .ok m) {f : Finality} (hn : f.validators = n)
    (hfinalized : f.finalized = max (m.getD 0) genesis) :
    f.finalized.toNat ≤ (f.prevotedIn ledger).toNat := by
  cases hhighest : ledger.highestWhere? fun tally => f.quorum.isMet tally.prevotes with
  | none =>
      unfold Finality.prevotedIn
      rw [hhighest]
      exact Nat.le_refl _
  | some highest =>
      obtain ⟨⟨hmem, hmet⟩, hmax⟩ := Ledger.highestWhere?_eq_some_iff.mp hhighest
      have hprevoted : f.prevotedIn ledger = highest := by
        unfold Finality.prevotedIn
        rw [hhighest]
        rfl
      have hpos : 0 < n := hn ▸ f.validators_pos
      have hsettled : ∀ a : Height,
          (Quorum.ofValidators n).votes.toNat ≤ numVotes rounds .prevote a →
            a.toNat ≤ highest.toNat := by
        intro a hvotes
        rw [← hprevoted]
        exact (htallied.settles hpos hvotes).le_prevotedIn hn htallied.within hmem hmet
      have hmarkerLe : (m.getD 0).toNat ≤ highest.toNat := by
        cases m with
        | none => exact Nat.zero_le _
        | some a => exact hsettled a (quorum_of_marker hrun hcard hvoters hmarker)
      have hgenesisLe : genesis.toNat ≤ highest.toNat := by
        rcases Nat.le_total genesis.toNat highest.toNat with hle | hge
        · exact hle
        · -- Whoever prevoted below genesis prevoted genesis, too.
          apply hsettled
          have hexact : ((ledger.tally highest).prevotes).toNat =
              numVotes rounds .prevote highest := htallied.votes .prevote highest hmem
          rw [Finality.quorum, hn, Quorum.isMet_iff, hexact] at hmet
          refine hmet.trans ?_
          refine numVotes_le_of_le (htallied.nodup .prevote) hge fun header hheader => ?_
          have := habove header hheader
          rw [UInt64.lt_iff_toNat_lt] at this
          omega
      rw [hprevoted, hfinalized, Word.toNat_max]
      omega

end Run

/-! ## One round -/

namespace Finality

variable {f g : Finality} {ledger counted pruned : Ledger} {window : Nat}

theorem prevotedOf_of_records {view : View} {m : Option Height}
    (hledger : Ledger.load view = .ok ledger) (hmarker : marker view = .ok m)
    (hvalidators : g.validators = f.validators)
    (hfinalized : g.finalized = max (m.getD 0) f.genesis) :
    f.prevotedOf view = .ok (g.prevotedIn ledger) := by
  have hread : f.read view = .ok (f.ofRecords m ledger, ledger) :=
    read_eq_ok_iff.mpr ⟨hledger, m, hmarker, rfl⟩
  rw [prevotedOf_eq hread]
  unfold prevotedIn quorum
  rw [hvalidators, hfinalized]
  rfl

theorem prevotedIn_of_no_quorum
    (hnone : ∀ h, h ∈ ledger.tallies → f.quorum.isMet (ledger.tally h).prevotes = false) :
    f.prevotedIn ledger = f.finalized := by
  unfold prevotedIn
  rw [Ledger.highestWhere?_eq_none_iff.mpr hnone]
  rfl

/-- If the prevoted height falls as votes are counted and the ledger is pruned, no retained height
has a quorum, and the prevoted height was dropped. -/
theorem no_quorum_of_falls (hvalidators : f.validators = g.validators)
    (hgrown : ∀ h, h ∈ ledger.tallies → h ∈ counted.tallies ∧
      (ledger.tally h).prevotes.toNat ≤ (counted.tally h).prevotes.toNat)
    (hpruned : counted.IsPruned window pruned) (hwindow : 0 < window)
    (hfinalized : f.finalized.toNat ≤ (g.prevotedIn pruned).toNat)
    (hfalls : (g.prevotedIn pruned).toNat < (f.prevotedIn ledger).toNat) :
    (∀ h, h ∈ pruned.tallies → g.quorum.isMet (pruned.tally h).prevotes = false) ∧
      ∃ top, top ∈ pruned.tallies ∧ (f.prevotedIn ledger).toNat + window ≤ top.toNat := by
  cases hhighest : ledger.highestWhere? fun tally => f.quorum.isMet tally.prevotes with
  | none =>
      have hbefore := prevotedIn_of_no_quorum (Ledger.highestWhere?_eq_none_iff.mp hhighest)
      rw [hbefore] at hfalls
      omega
  | some highest =>
      obtain ⟨hmem, hmet⟩ := (Ledger.highestWhere?_eq_some_iff.mp hhighest).1
      have hbefore : f.prevotedIn ledger = highest := by
        unfold prevotedIn
        rw [hhighest]
        rfl
      rw [hbefore] at hfalls ⊢
      obtain ⟨hcounted, hvotes⟩ := hgrown highest hmem
      have hmetCounted : g.quorum.isMet (counted.tally highest).prevotes = true := by
        rw [quorum, hvalidators, Quorum.isMet_iff] at hmet
        rw [quorum, Quorum.isMet_iff]
        omega
      rcases hpruned.mem_or_dropped hwindow hcounted with hkept | ⟨top, htop, hdropped⟩
      · rw [← hpruned.tally highest hkept] at hmetCounted
        have := le_prevotedIn hkept hmetCounted
        omega
      · refine ⟨fun h hh => ?_, top, htop, hdropped⟩
        -- A height that is kept lies above one that is dropped.
        by_contra hquorum
        have hle := le_prevotedIn hh (by simpa using hquorum)
        have hnear := ((hpruned.mem_iff h).mp hh).2 top ((hpruned.mem_iff top).mp htop).1
        omega

end Finality

/-- How a round moves the prevoted height that its state shows, where `ledger` is the one that it
wrote. -/
structure Round.MovesPrevoted (r : Round) (old new : Height) (ledger : Ledger) : Prop where
  prevoted : r.finality.prevotedOf r.view = .ok old
  prevoted_after : r.finality.prevotedOf r.viewAfter = .ok new
  load_ledger : Ledger.load r.viewAfter = .ok ledger
  /-- It falls exactly if the last height with a quorum is forgotten before it is finalized. -/
  falls_iff : new < old ↔ r.addition.finality.finalized < old ∧
    ∀ h, h ∈ ledger.tallies → r.finality.quorum.isMet (ledger.tally h).prevotes = false
  falls_to : new < old → new = r.addition.finality.finalized
  /-- Heights are kept for a whole window. -/
  stays_of_lt : r.header.height.toNat < old.toNat + r.finality.retained.toNat → old ≤ new

section Run

variable {n : Word} {genesis : Height} {rounds : List Round} {view : View}

theorem movesPrevoted_last {r : Round} (hrun : Run n genesis rounds view)
    (hn : r.finality.validators = n) (hgenesis : r.finality.genesis = genesis)
    (hbefore : r.view.SameRecords view)
    (hascending : (acceptedHeaders (rounds ++ [r])).Pairwise fun a b => a.height < b.height)
    (habove : ∀ header ∈ acceptedHeaders (rounds ++ [r]), genesis < header.height)
    (haccepted : r.isAccepted = true) : ∃ old new ledger, r.MovesPrevoted old new ledger := by
  obtain ⟨voters, hcard, hvoters⟩ := exists_voters_of_ascending hascending
  obtain ⟨synced, ledger, validators, counted, pruned, happlied⟩ :=
    Round.isAccepted_iff.mp haccepted
  obtain ⟨loaded, hload, htallied⟩ := exists_tallied hrun hcard fun r hr =>
    hvoters r (List.mem_append_left _ hr)
  obtain rfl := happlied.ledger_eq hbefore hload
  obtain ⟨htalliedAfter, hwritten⟩ := htallied.apply happlied hn hcard hvoters
  obtain ⟨m, hmarker, hmax⟩ := happlied.exists_marker_viewAfter
  have hrunAfter : Run n genesis (rounds ++ [r]) r.viewAfter :=
    .step hrun hn hgenesis hbefore (.refl _)
  have hpruned := Ledger.isPruned_prune? happlied.prunes
  have hrule := Finality.sameRule_of_read happlied.read
  have hkept : r.addition.finality = (synced.advance counted).2 := happlied.addition_eq.2.1
  have hvalidators : synced.validators = r.addition.finality.validators := by
    rw [hkept, (Finality.parameters_advance synced counted).1]
  have hsame : r.addition.finality.validators = r.finality.validators := by
    rw [← hvalidators, hrule.validators]
  rw [← hkept] at hmax
  let old := synced.prevotedIn ledger
  let new := r.addition.finality.prevotedIn pruned
  have hold : r.finality.prevotedOf r.view = .ok old := by
    obtain ⟨hledger, m', hmarker', hsynced⟩ := Finality.read_eq_ok_iff.mp happlied.read
    exact Finality.prevotedOf_of_records hledger hmarker' hrule.validators (by rw [hsynced]; rfl)
  have hnew : r.finality.prevotedOf r.viewAfter = .ok new :=
    Finality.prevotedOf_of_records hwritten hmarker hsame hmax.symm
  have hraised : synced.finalized.toNat ≤ r.addition.finality.finalized.toNat := by
    rw [hkept, Finality.toNat_finalized_advance]
    exact Nat.le_max_left _ _
  have hbound : r.addition.finality.finalized.toNat ≤ new.toNat :=
    finalized_le_prevotedIn hrunAfter hcard hvoters habove htalliedAfter hmarker
      (hsame.trans hn) (by rw [← hmax, hgenesis])
  have hgrown : ∀ h, h ∈ ledger.tallies → h ∈ counted.tallies ∧
      (ledger.tally h).prevotes.toNat ≤ (counted.tally h).prevotes.toNat := by
    intro h hh
    have hvotes : (counted.tally h).prevotes.toNat =
        (ledger.tally h).prevotes.toNat + (r.heights .prevote).count h :=
      happlied.counts_ledger.votes .prevote h
    exact ⟨(happlied.counts_ledger.mem_iff h).mpr (.inl hh), by omega⟩
  have hfalls : new < old →
      (∀ h, h ∈ pruned.tallies → r.finality.quorum.isMet (pruned.tally h).prevotes = false) ∧
        old.toNat + r.finality.retained.toNat ≤ r.header.height.toNat := by
    intro hlt
    rw [UInt64.lt_iff_toNat_lt] at hlt
    obtain ⟨hnone, top, htop, hdropped⟩ := Finality.no_quorum_of_falls hvalidators hgrown hpruned
      r.finality.retained_pos (hraised.trans hbound) hlt
    have htopLe := height_le_of_mem hrunAfter hcard hvoters hascending haccepted hwritten htop
    refine ⟨fun h hh => ?_, hdropped.trans htopLe⟩
    have hnot := hnone h hh
    rwa [Finality.quorum, hsame] at hnot
  have hfallsTo : (∀ h, h ∈ pruned.tallies →
      r.finality.quorum.isMet (pruned.tally h).prevotes = false) →
        new = r.addition.finality.finalized := by
    intro hnone
    apply Finality.prevotedIn_of_no_quorum
    rw [Finality.quorum, hsame]
    exact hnone
  refine ⟨old, new, pruned, hold, hnew, hwritten, ⟨fun hlt => ?_, fun hstalled => ?_⟩,
    fun hlt => hfallsTo (hfalls hlt).1, fun hnear => ?_⟩
  · have hnone := (hfalls hlt).1
    rw [← hfallsTo hnone]
    exact ⟨hlt, hnone⟩
  · obtain ⟨hlt, hnone⟩ := hstalled
    rwa [hfallsTo hnone]
  · by_contra hnot
    have hfar := (hfalls (UInt64.not_le.mp hnot)).2
    omega

/-- The prevoted height of a state falls exactly as the last height with a prevote quorum is
dropped before it is finalized. It then is the finalized height, and the header lies a whole window
above the height that is forgotten. -/
theorem exists_movesPrevoted (hrun : Run n genesis rounds view)
    (hascending : (acceptedHeaders rounds).Pairwise fun a b => a.height < b.height)
    (habove : ∀ header ∈ acceptedHeaders rounds, genesis < header.height) {r : Round}
    (hr : r ∈ rounds) (haccepted : r.isAccepted = true) :
    ∃ old new ledger, r.MovesPrevoted old new ledger := by
  obtain ⟨earlier, later, before, rfl, hearlier, hn, hgenesis, hbefore⟩ := hrun.exists_before hr
  rw [acceptedHeaders_append] at hascending habove
  refine movesPrevoted_last hearlier hn hgenesis hbefore (List.pairwise_append.mp hascending).1
    (fun header hheader => ?_) haccepted
  exact habove header (List.mem_append_left _ hheader)

set_option maxRecDepth 4000 in
/-- Two validators prevote height 1. Blocks without votes follow, until one of the two votes for
height 11: height 1 is dropped, and the prevoted height falls to 0. -/
theorem movesPrevoted_of_stalled :
    let node := Node.start 2 (by decide) 0
      [⟨.ofNat 1, true, 0⟩, ⟨.ofNat 2, true, 0⟩, ⟨.ofNat 3, false, 0⟩]
    let headers : List Header :=
      ⟨1, .ofNat 1, .ofNat 0, .ofNat 1, 0, 0, 0, 0⟩ ::
        ⟨2, .ofNat 2, .ofNat 1, .ofNat 2, 0, 0, 0, 0⟩ ::
          (List.range' 3 8).map fun i =>
            ⟨.ofNat i, .ofNat i, .ofNat (i - 1), .ofNat 3, 0, 0, .ofNat (i - 1), 1⟩
    let last : Header := ⟨11, .ofNat 11, .ofNat 10, .ofNat 2, 0, 0, 2, 1⟩
    let r := (node.run headers).round last
    r.isAccepted = true ∧ r.finality.prevotedOf r.view = .ok 1 ∧
      r.finality.prevotedOf r.viewAfter = .ok 0 ∧
      ∃ old new ledger, r.MovesPrevoted old new ledger := by
  intro node headers last r
  have hmem : r ∈ node.rounds (headers ++ [last]) := by
    rw [Node.rounds_concat]
    simp [r]
  have haccepted : r.isAccepted = true := by cbv
  have hheaders : node.accepted (headers ++ [last]) = headers ++ [last] := by cbv
  have hascending :
      (node.accepted (headers ++ [last])).Pairwise fun a b => a.height < b.height := by
    rw [hheaders]
    decide +kernel
  have habove : ∀ header ∈ node.accepted (headers ++ [last]), 0 < header.height := by
    rw [hheaders]
    decide +kernel
  refine ⟨haccepted, by cbv, by cbv, ?_⟩
  exact exists_movesPrevoted (Node.isRun Node.isFresh_start _) hascending habove hmem haccepted

end Run

end FinalityGadget
