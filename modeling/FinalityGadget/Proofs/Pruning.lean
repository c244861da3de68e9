import FinalityGadget.Proofs.Advance

/-!
# The newest heights of a ledger

Pruning keeps the heights of a window that ends at the highest one, with the tallies that they have,
and of two windows the smaller one decides, whichever comes first. So the ledger that is written for
an accepted header fits the window of its rule, however many heights the state held before.
-/

namespace FinalityGadget

namespace Ledger

/-- What keeping the `maxHeights` newest heights makes of a ledger. Where the highest height is less
than `maxHeights`, the lowest height that is kept would be negative. -/
structure KeepsNewest (l : Ledger) (maxHeights : Nat) (pruned : Ledger) : Prop where
  voters : pruned.voters = l.voters
  getElem? : ∀ highest, l.highest? = some highest → ∀ h : Height,
    pruned.tallies[h]? =
      if (highest.toNat : Int) - maxHeights < h.toNat then l.tallies[h]? else none
  highest? : pruned.highest? = l.highest?
  size_le : pruned.size ≤ maxHeights

/-- At most `window` heights, all of them less than `window` below the highest. -/
structure FitsWindow (l : Ledger) (window : Nat) : Prop where
  size_le : l.size ≤ window
  near : ∀ highest, l.highest? = some highest → ∀ h, h ∈ l.tallies →
    highest.toNat < h.toNat + window

variable {l pruned again : Ledger} {window further : Nat}

namespace IsPruned

theorem getElem?_eq (hpruned : l.IsPruned window pruned) {highest : Height}
    (hhighest : l.highest? = some highest) (h : Height) :
    pruned.tallies[h]? =
      if (highest.toNat : Int) - window < h.toNat then l.tallies[h]? else none := by
  obtain ⟨hmem, hmax⟩ := highest?_eq_some_iff.mp hhighest
  have hkept : h ∈ pruned.tallies ↔ h ∈ l.tallies ∧ (highest.toNat : Int) - window < h.toNat := by
    rw [hpruned.mem_iff]
    refine and_congr_right fun _ => ⟨fun hall => ?_, fun hnew k hk => ?_⟩
    · have := hall highest hmem
      omega
    · have := hmax k hk
      omega
  split
  · rename_i hnew
    by_cases hl : h ∈ l.tallies
    · have hp := hkept.mpr ⟨hl, hnew⟩
      rw [getElem?_of_mem hp, getElem?_of_mem hl, hpruned.tally h hp]
    · have hp := mt (fun hp => (hkept.mp hp).1) hl
      rw [Std.ExtTreeMap.getElem?_eq_none hp, Std.ExtTreeMap.getElem?_eq_none hl]
  · rename_i hold
    exact Std.ExtTreeMap.getElem?_eq_none fun hp => hold (hkept.mp hp).2

theorem highest?_eq (hpruned : l.IsPruned window pruned) (hwindow : 0 < window) :
    pruned.highest? = l.highest? := by
  cases hhighest : l.highest? with
  | none =>
      have hempty := highest?_eq_none_iff.mp hhighest
      exact highest?_eq_none_iff.mpr fun h hp => hempty h ((hpruned.mem_iff h).mp hp).1
  | some highest =>
      obtain ⟨hmem, hmax⟩ := highest?_eq_some_iff.mp hhighest
      have hkept : highest ∈ pruned.tallies := by
        refine (hpruned.mem_iff highest).mpr ⟨hmem, fun k hk => ?_⟩
        have := hmax k hk
        omega
      exact highest?_eq_some_iff.mpr
        ⟨hkept, fun k hk => hmax k ((hpruned.mem_iff k).mp hk).1⟩

theorem keepsNewest (hpruned : l.IsPruned window pruned) (hwindow : 0 < window) :
    l.KeepsNewest window pruned where
  voters := hpruned.voters
  getElem? _ hhighest := hpruned.getElem?_eq hhighest
  highest? := hpruned.highest?_eq hwindow
  size_le := hpruned.size_le

theorem fitsWindow (hpruned : l.IsPruned window pruned) : pruned.FitsWindow window where
  size_le := hpruned.size_le
  near highest hhighest h hh := by
    have hmem := (highest?_eq_some_iff.mp hhighest).1
    exact ((hpruned.mem_iff h).mp hh).2 highest ((hpruned.mem_iff highest).mp hmem).1

theorem eq_of_isPruned (hpruned : l.IsPruned window pruned) (hagain : l.IsPruned window again) :
    pruned = again := by
  have hmem : ∀ h, h ∈ pruned.tallies ↔ h ∈ again.tallies := by
    intro h
    rw [hpruned.mem_iff, hagain.mem_iff]
  refine eq_of_tallies (hpruned.voters.trans hagain.voters.symm) hmem fun h => ?_
  by_cases hp : h ∈ pruned.tallies
  · rw [hpruned.tally h hp, hagain.tally h ((hmem h).mp hp)]
  · rw [tally_of_not_mem hp, tally_of_not_mem (mt (hmem h).mpr hp)]

/-- The first window keeps the highest height, so the second one ends where the first does. -/
theorem trans (hpruned : l.IsPruned window pruned) (hagain : pruned.IsPruned further again)
    (hwindow : 0 < window) : l.IsPruned (min further window) again where
  voters := hagain.voters.trans hpruned.voters
  mem_iff h := by
    rw [hagain.mem_iff, hpruned.mem_iff]
    constructor
    · rintro ⟨⟨hl, hall⟩, hallPruned⟩
      refine ⟨hl, fun k hk => ?_⟩
      obtain ⟨top, htop, hle⟩ := hpruned.exists_ge_of_mem hwindow hk
      have hnear := hall k hk
      have hnearTop := hallPruned top htop
      omega
    · rintro ⟨hl, hall⟩
      refine ⟨⟨hl, fun k hk => ?_⟩, fun k hk => ?_⟩
      · have := hall k hk
        omega
      · have := hall k ((hpruned.mem_iff k).mp hk).1
        omega
  tally h hh := by
    rw [hagain.tally h hh, hpruned.tally h ((hagain.mem_iff h).mp hh).1]

end IsPruned

theorem FitsWindow.mono (hfits : l.FitsWindow window) (hle : window ≤ further) :
    l.FitsWindow further where
  size_le := hfits.size_le.trans hle
  near highest hhighest h hh := (hfits.near highest hhighest h hh).trans_le (by omega)

theorem prune?_prune? {l pruned : Ledger} {window further : Word} (hwindow : 0 < window)
    (hfurther : 0 < further) (hpruned : l.prune? window = some pruned) :
    pruned.prune? further = l.prune? (min further window) := by
  have hwindowNat : 0 < window.toNat := UInt64.lt_iff_toNat_lt.mp hwindow
  have hfurtherNat : 0 < further.toNat := UInt64.lt_iff_toNat_lt.mp hfurther
  have hmin := Word.toNat_min further window
  obtain ⟨again, hagain⟩ := prune?_isSome (l := pruned) hfurtherNat
  obtain ⟨atOnce, hatOnce⟩ : ∃ atOnce, l.prune? (min further window) = some atOnce :=
    prune?_isSome (by omega)
  have htwice := (isPruned_prune? hpruned).trans (isPruned_prune? hagain) hwindowNat
  rw [← hmin] at htwice
  rw [hagain, hatOnce, htwice.eq_of_isPruned (isPruned_prune? hatOnce)]

end Ledger

theorem Round.IsApplied.fitsWindow {r : Round} {synced : Finality} {ledger counted pruned : Ledger}
    {validators : List Validator} (h : r.IsApplied synced ledger validators counted pruned) :
    pruned.FitsWindow (5 * r.finality.validators.toNat) := by
  refine (Ledger.isPruned_prune? h.prunes).fitsWindow.mono ?_
  rw [Finality.toNat_retained, Nat.mul_comm]
  exact Nat.min_le_left _ _

namespace Ledger

/-- A ledger can be pruned to any positive number of heights. The newest ones are kept, and what was
pruned before is pruned as if at once. Whatever ledger a state has, the one that is written to it
for an accepted header fits the window of the rule; it is read back if the length of what was there
is a word. -/
theorem prune_exact :
    (∀ (l : Ledger) (maxHeights : Word), 0 < maxHeights →
      ∃ pruned, l.prune? maxHeights = some pruned ∧ l.KeepsNewest maxHeights.toNat pruned ∧
        ∀ further : Word, 0 < further →
          pruned.prune? further = l.prune? (min further maxHeights)) ∧
    ∀ (f : Finality) (header : Header) (store : Store) (db : Database) (registry : Registry)
      (advanced : Option Height),
      let addition := f.add header store db registry
      addition.verdict = .accepted advanced →
        ∃ stored : Ledger, stored.FitsWindow (5 * f.validators.toNat) ∧
          addition.store.view db key = .ok (some (format.encode stored)) ∧
          ((∀ value, store.view db key = .ok (some value) → value.length ≤ Word.maxNat) →
            load (addition.store.view db) = .ok stored) := by
  constructor
  · intro l maxHeights hpos
    have hposNat : 0 < maxHeights.toNat := UInt64.lt_iff_toNat_lt.mp hpos
    obtain ⟨pruned, hpruned⟩ := prune?_isSome (l := l) hposNat
    refine ⟨pruned, hpruned, (isPruned_prune? hpruned).keepsNewest hposNat, ?_⟩
    exact fun further hfurther => prune?_prune? hpos hfurther hpruned
  · intro f header store db registry advanced addition hverdict
    let r : Round := ⟨f, header, store, db, registry⟩
    have hsame : r.addition.verdict = .accepted advanced := hverdict
    have haccepted : r.isAccepted = true := by
      unfold Round.isAccepted
      rw [hsame]
    obtain ⟨_, _, _, _, stored, happlied⟩ := Round.isAccepted_iff.mp haccepted
    exact ⟨stored, happlied.fitsWindow, happlied.viewAfter_ledger, happlied.load_of_length_le⟩

/-- Of the heights 0, 1 and 3 three are too many for a window of three, and a header at height 9
leaves none of them in a window of five. -/
theorem prune_exact_of_gaps :
    let l : Ledger := ((empty.setTally 0 ⟨5, 0⟩).setTally 1 ⟨1, 1⟩).setTally 3 ⟨2, 0⟩
    let f : Finality := ⟨1, by decide, 0, 0, 0⟩
    let header : Header := ⟨9, .ofNat 9, .ofNat 8, .ofNat 1, 0, 0, 7, 0⟩
    let store := (Store.ofHeaders (.empty 5)).setLedger l
    let registry : Registry := .fixed [⟨.ofNat 1, true, 0⟩]
    (∃ pruned, (0 : Word) < 3 ∧ (0 : Word) < 2 ∧ l.prune? 3 = some pruned ∧
      pruned.tallies[(0 : Height)]? = none ∧ pruned.tallies[(1 : Height)]? = some ⟨1, 1⟩ ∧
      pruned.prune? 2 = l.prune? 2) ∧
    (f.add header store .empty registry).verdict = .accepted (some 1) ∧
      ∃ stored : Ledger, stored.FitsWindow 5 ∧
        load ((f.add header store .empty registry).store.view .empty) = .ok stored := by
  intro l f header store registry
  have hthree : (0 : Word) < 3 := by decide
  have htwo : (0 : Word) < 2 := by decide
  have hhighest : l.highest? = some 3 := by cbv
  have hverdict : (f.add header store .empty registry).verdict = .accepted (some 1) := by cbv
  have hlength : ∀ value, store.view .empty key = .ok (some value) →
      value.length ≤ Word.maxNat := by
    intro value hvalue
    have hwritten : store.view .empty key = .ok (some (format.encode l)) := by
      show ((Store.ofHeaders (.empty 5)).set key (format.encode l)).view .empty key = _
      rw [Store.view_set, if_pos rfl]
    rw [hwritten] at hvalue
    obtain rfl := Option.some.inj (Except.ok.inj hvalue)
    decide +kernel
  obtain ⟨pruned, hpruned, hkeeps, hfurther⟩ := prune_exact.1 l 3 hthree
  obtain ⟨stored, hfits, -, hload⟩ := prune_exact.2 f header store .empty registry (some 1) hverdict
  refine ⟨⟨pruned, hthree, htwo, hpruned, ?_, ?_, hfurther 2 htwo⟩, hverdict, stored, hfits,
    hload hlength⟩
  · rw [hkeeps.getElem? 3 hhighest]
    rfl
  · rw [hkeeps.getElem? 3 hhighest]
    decide +kernel

end Ledger

end FinalityGadget
