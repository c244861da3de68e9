import FinalityGadget.Proofs.Tallies
import FinalityGadget.Proofs.Walk

/-!
# No word overflows

Whatever the words of a header are, applying it is accepted or rejected: no tally and no height
passes the largest word. A tally has room for another vote as long as there are fewer rounds than a
word can count, since nobody votes twice for a height. A height is only raised where a higher one is
known: below the header that names it, or below the highest one in the ledger.
-/

namespace FinalityGadget

theorem Round.verdict_ne_overflowed {r : Round}
    (hcounts : ∀ synced ledger validators, r.finality.read r.view = .ok (synced, ledger) →
      ∃ counted,
        (synced.rules.count r.header ledger validators r.store.headers).ledger? ledger =
          some counted) : r.addition.verdict ≠ .overflowed := by
  cases hprepare : r.finality.prepare r.header r.store r.db r.registry with
  | error e =>
      rw [Round.verdict_of_prepare hprepare]
      simp
  | ok prepared =>
      obtain ⟨synced, ledger, validators⟩ := prepared
      obtain ⟨hread, hchecked, hregistered⟩ := Round.prepare_eq_ok_iff.mp hprepare
      obtain ⟨counted, hcounted⟩ := hcounts synced ledger validators hread
      obtain ⟨pruned, hpruned⟩ := Ledger.prune?_isSome (l := counted) r.finality.retained_pos
      have happlied : r.IsApplied synced ledger validators counted pruned :=
        ⟨hread, hchecked, hregistered, hcounted, hpruned⟩
      rw [happlied.addition_eq.1]
      simp

variable {n : Word} {genesis : Height} {rounds : List Round} {view : View}

theorem Run.verdict_ne_overflowed (hrun : Run n genesis rounds view)
    (hlength : rounds.length < 2 ^ 64) {r : Round} (hr : r ∈ rounds) :
    r.addition.verdict ≠ .overflowed := by
  obtain ⟨earlier, later, before, rfl, hearlier, -, -, hsame⟩ := hrun.exists_before hr
  have hcard : (insert r.header.generator (countedVoters earlier)).card ≤ Word.maxNat := by
    have hinsert := Finset.card_insert_le r.header.generator (countedVoters earlier)
    have hcounted : (countedVoters earlier).card ≤ earlier.length := card_countedVoters_le
    simp only [List.length_append, List.length_singleton] at hlength
    unfold Word.maxNat
    omega
  have hvoters : ∀ r' ∈ earlier, r'.ballot?.isSome = true →
      r'.header.generator ∈ insert r.header.generator (countedVoters earlier) :=
    fun r' hr' hballot => Finset.mem_insert_of_mem (mem_countedVoters hr' hballot)
  obtain ⟨loaded, hload, htallied⟩ := exists_tallied hearlier hcard hvoters
  refine Round.verdict_ne_overflowed fun synced ledger validators hread => ?_
  have hledger := (Finality.read_eq_ok_iff.mp hread).1
  rw [hsame.load_eq, hload] at hledger
  obtain rfl := Except.ok.inj hledger
  exact htallied.exists_counted hcard hvoters synced.rules r.store.headers
    fun _ _ => Finset.mem_insert_self _ _

/-- However a run goes on, no sum and no difference of words leaves the range: neither in the
parameters of the rule, nor in applying a header, nor in the walk down its history, which ends. The
history of a header that names no lower height is not walked. -/
theorem never_overflows (hrun : Run n genesis rounds view) (hlength : rounds.length < 2 ^ 64) :
    (0 < n → ∃ f, Finality.start n genesis = .ok f ∧
      f.reach.toNat + 1 = (Word.satMul n 3).toNat) ∧
      ∀ r ∈ rounds, r.addition.verdict ≠ .overflowed ∧
        (r.header.previouslyForged < r.header.height → ∃ turns floor,
          Walk.Ends r.header r.finality.reach r.store.headers turns
            (Walk.start r.header r.finality.reach) floor ∧
          turns ≤ r.finality.reach.toNat ∧
          r.header.precommitFloor? r.finality.reach
            (r.header.trail r.finality.reach r.store.headers) = some floor) := by
  refine ⟨fun hn => ?_, fun r hr => ⟨hrun.verdict_ne_overflowed hlength hr, fun hforged => ?_⟩⟩
  · let f : Finality := ⟨n, hn, genesis, genesis, genesis⟩
    exact ⟨f, dif_pos hn, f.reach_add_one⟩
  · exact Walk.start_ends r.finality.reach_pos (UInt64.lt_iff_toNat_lt.mp hforged)

/-- The first header has the largest height, and votes for it; the second one lies far below and
names a height above its own. -/
theorem never_overflows_of_extremes :
    let node := Node.start 0xFFFFFFFFFFFFFFFF (by decide) 0xFFFFFFFFFFFFFFFF
      [⟨.ofNat 1, true, 0xFFFFFFFFFFFFFFFF⟩, ⟨.ofNat 2, true, 0⟩]
    let headers : List Header :=
      [⟨0xFFFFFFFFFFFFFFFF, .ofNat 1, .ofNat 0, .ofNat 1, 0, 0, 0xFFFFFFFFFFFFFFFE, 0⟩,
        ⟨3, .ofNat 2, .ofNat 1, .ofNat 2, 0, 0, 0xFFFFFFFFFFFFFFFF, 0xFFFFFFFFFFFFFFFF⟩]
    node.accepted headers = headers ∧ ∀ r ∈ node.rounds headers,
      r.addition.verdict ≠ .overflowed ∧
        (r.header.previouslyForged < r.header.height → ∃ turns floor,
          Walk.Ends r.header r.finality.reach r.store.headers turns
            (Walk.start r.header r.finality.reach) floor ∧
          turns ≤ r.finality.reach.toNat ∧
          r.header.precommitFloor? r.finality.reach
            (r.header.trail r.finality.reach r.store.headers) = some floor) := by
  intro node headers
  have haccepted : node.accepted headers = headers := by cbv
  exact ⟨haccepted, (never_overflows (Node.isRun Node.isFresh_start headers) (by decide)).2⟩

end FinalityGadget
