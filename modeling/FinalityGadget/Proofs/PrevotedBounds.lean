import FinalityGadget.Proofs.PrevotedHeight

/-!
# Between the finalized height and the top

Whatever headers above genesis are applied, and in whatever order: the prevoted height of a state
lies between its finalized height and the height of the highest header that was accepted. Votes may
be counted for heights at or below genesis, but whoever prevotes such a height prevotes genesis
as well.
-/

namespace FinalityGadget

/-- The height of the highest accepted header, or genesis if none is higher. -/
def topHeight (genesis : Height) (rounds : List Round) : Height :=
  (acceptedHeaders rounds).foldr (fun header top => max header.height top) genesis

variable {n : Word} {genesis : Height} {rounds : List Round} {view : View}

theorem genesis_le_topHeight : genesis.toNat ≤ (topHeight genesis rounds).toNat := by
  unfold topHeight
  induction acceptedHeaders rounds with
  | nil => exact Nat.le_refl _
  | cons header rest ih =>
      rw [List.foldr_cons, Word.toNat_max]
      omega

theorem height_le_topHeight {header : Header} (hheader : header ∈ acceptedHeaders rounds) :
    header.height.toNat ≤ (topHeight genesis rounds).toNat := by
  unfold topHeight
  generalize acceptedHeaders rounds = headers at hheader
  induction headers with
  | nil => simp at hheader
  | cons first rest ih =>
      rw [List.foldr_cons, Word.toNat_max]
      rcases List.mem_cons.mp hheader with rfl | hrest
      · omega
      · have := ih hrest
        omega

theorem vote_le_topHeight {r : Round} (hr : r ∈ rounds) {kind : VoteKind} {h : Height}
    (hh : h ∈ r.heights kind) : h.toNat ≤ (topHeight genesis rounds).toNat := by
  obtain ⟨ballot, hballot, -⟩ := Round.exists_ballot?_of_mem hh
  have hheader : r.header ∈ acceptedHeaders rounds :=
    mem_acceptedHeaders.mpr ⟨r, hr, Round.isAccepted_of_ballot? hballot, rfl⟩
  exact (Round.le_height_of_vote hh).trans (height_le_topHeight hheader)

theorem marker_le_topHeight (hrun : Run n genesis rounds view) (hn : 0 < n)
    {voters : Finset Address} (hcard : voters.card ≤ Word.maxNat)
    (hvoters : ∀ r ∈ rounds, r.ballot?.isSome = true → r.header.generator ∈ voters)
    {m : Option Height} (hmarker : Finality.marker view = .ok m) :
    (m.getD 0).toNat ≤ (topHeight genesis rounds).toNat := by
  cases m with
  | none => exact Nat.zero_le _
  | some a =>
      have hquorum := quorum_of_marker hrun hcard hvoters hmarker
      obtain ⟨v, hv, rfl⟩ := exists_vote_of_numVotes_pos
        (Nat.lt_of_lt_of_le (Quorum.votes_pos hn) hquorum)
      obtain ⟨r, hr, -, hh⟩ := mem_votesCast.mp hv
      exact vote_le_topHeight hr hh

theorem prevotedIn_le_topHeight (hrun : Run n genesis rounds view) {voters : Finset Address}
    (hcard : voters.card ≤ Word.maxNat)
    (hvoters : ∀ r ∈ rounds, r.ballot?.isSome = true → r.header.generator ∈ voters)
    {ledger : Ledger} (hload : Ledger.load view = .ok ledger) {m : Option Height}
    (hmarker : Finality.marker view = .ok m) {f : Finality} (hn : f.validators = n)
    (hfinalized : f.finalized = max (m.getD 0) genesis) :
    (f.prevotedIn ledger).toNat ≤ (topHeight genesis rounds).toNat := by
  unfold Finality.prevotedIn
  cases hhighest : ledger.highestWhere? fun tally => f.quorum.isMet tally.prevotes with
  | none =>
      have hmarkerLe := marker_le_topHeight hrun (hn ▸ f.validators_pos) hcard hvoters hmarker
      have hgenesisLe : genesis.toNat ≤ (topHeight genesis rounds).toNat := genesis_le_topHeight
      rw [Option.getD_none, hfinalized, Word.toNat_max]
      omega
  | some highest =>
      have hmem := (Ledger.highestWhere?_eq_some_iff.mp hhighest).1.1
      obtain ⟨r, hr, kind, hh⟩ := exists_vote_of_mem hrun hcard hvoters hload hmem
      exact vote_le_topHeight hr hh

/-- The prevoted height of a state is at least its finalized height, and no higher than the headers
that were accepted. A stored ledger counts its voters in a word, so there are no more of them than a
word holds. -/
theorem exists_prevoted_between (hrun : Run n genesis rounds view)
    (hfits : (countedVoters rounds).card ≤ Word.maxNat)
    (habove : ∀ header ∈ acceptedHeaders rounds, genesis < header.height) {f : Finality}
    (hn : f.validators = n) (hgenesis : f.genesis = genesis) :
    ∃ m p, Finality.marker view = .ok m ∧ f.prevotedOf view = .ok p ∧
      max (m.getD 0) genesis ≤ p ∧ p ≤ topHeight genesis rounds := by
  have hvoters : ∀ r ∈ rounds, r.ballot?.isSome = true →
      r.header.generator ∈ countedVoters rounds := fun r hr => mem_countedVoters hr
  obtain ⟨m, hmarker⟩ := exists_marker hrun
  obtain ⟨ledger, hload, htallied⟩ := exists_tallied hrun hfits hvoters
  let raised : Finality := { f with finalized := max (m.getD 0) genesis }
  have hprevoted : f.prevotedOf view = .ok (raised.prevotedIn ledger) :=
    Finality.prevotedOf_of_records hload hmarker rfl (by rw [hgenesis])
  have hlower : (max (m.getD 0) genesis).toNat ≤ (raised.prevotedIn ledger).toNat :=
    finalized_le_prevotedIn (f := raised) hrun hfits hvoters habove htallied hmarker hn rfl
  have hupper : (raised.prevotedIn ledger).toNat ≤ (topHeight genesis rounds).toNat :=
    prevotedIn_le_topHeight hrun hfits hvoters hload hmarker hn rfl
  exact ⟨m, _, hmarker, hprevoted, UInt64.le_iff_toNat_le.mpr hlower,
    UInt64.le_iff_toNat_le.mpr hupper⟩

set_option maxRecDepth 2000 in
/-- The second header lies below the first one and finalizes height 5. It prevotes genesis, too. -/
theorem exists_prevoted_between_of_two :
    let node := Node.start 1 (by decide) 4 [⟨.ofNat 1, true, 0⟩, ⟨.ofNat 2, true, 0⟩]
    let headers : List Header :=
      [⟨7, .ofNat 7, .ofNat 6, .ofNat 1, 0, 0, 0, 4⟩, ⟨6, .ofNat 6, .ofNat 5, .ofNat 2, 0, 0, 0, 7⟩]
    (∀ header ∈ node.accepted headers, 4 < header.height) ∧
      (countedVoters (node.rounds headers)).card ≤ Word.maxNat ∧
      ∃ m p, Finality.marker (node.run headers).view = .ok m ∧
        node.gadget.finality.prevotedOf (node.run headers).view = .ok p ∧ max (m.getD 0) 4 ≤ p ∧
        p ≤ topHeight 4 (node.rounds headers) ∧ m = some 5 ∧ p = 7 := by
  intro node headers
  have hheaders : node.accepted headers = headers := by cbv
  have habove : ∀ header ∈ node.accepted headers, 4 < header.height := by
    rw [hheaders]
    decide +kernel
  have hfits : (countedVoters (node.rounds headers)).card ≤ Word.maxNat :=
    card_countedVoters_le.trans (by decide)
  have hmarker : Finality.marker (node.run headers).view = .ok (some 5) := by cbv
  have hprevoted : node.gadget.finality.prevotedOf (node.run headers).view = .ok 7 := by cbv
  obtain ⟨m, p, hm, hp, hlower, hupper⟩ := exists_prevoted_between (f := node.gadget.finality)
    (Node.isRun Node.isFresh_start headers) hfits habove rfl rfl
  obtain rfl := Except.ok.inj (hm.symm.trans hmarker)
  obtain rfl := Except.ok.inj (hp.symm.trans hprevoted)
  exact ⟨habove, hfits, _, _, hm, hp, hlower, hupper, rfl, rfl⟩

end FinalityGadget
