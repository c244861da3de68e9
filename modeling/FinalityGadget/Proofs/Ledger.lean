import FinalityGadget.Ledger
import FinalityGadget.Proofs.Codec
import Mathlib.Order.Interval.Finset.Nat

/-!
# Reading and pruning the ledger

What the highest height of a test and a pruned ledger are, said without the order in which heights
are stored, and the size that keeps a ledger readable once it is written.
-/

namespace FinalityGadget

namespace Ledger

theorem isLE_compare_iff {a b : Word} : (compare a b).isLE = true ↔ a.toNat ≤ b.toNat := by
  rw [← UInt64.le_iff_toNat_le]
  exact Std.isLE_compare

theorem tally_of_not_mem {l : Ledger} {h : Height} (hnot : h ∉ l.tallies) :
    l.tally h = ⟨0, 0⟩ := by
  simp [tally, Std.ExtTreeMap.getD_eq_fallback hnot]

theorem mem_of_prevotes_pos {l : Ledger} {h : Height} (hpos : 0 < (l.tally h).prevotes.toNat) :
    h ∈ l.tallies := by
  by_contra hnot
  rw [tally_of_not_mem hnot] at hpos
  simp at hpos

theorem mem_setTally {l : Ledger} {h k : Height} {t : Tally} :
    k ∈ (l.setTally h t).tallies ↔ h = k ∨ k ∈ l.tallies := by
  simp [setTally, Std.ExtTreeMap.mem_insert]

theorem getElem?_of_mem {l : Ledger} {h : Height} (hmem : h ∈ l.tallies) :
    l.tallies[h]? = some (l.tally h) := by
  rw [Std.ExtTreeMap.getElem?_eq_some_getElem hmem, Std.ExtTreeMap.getElem_eq_getD]
  rfl

theorem eq_of_tallies {l l' : Ledger} (hvoters : l.voters = l'.voters)
    (hmem : ∀ h, h ∈ l.tallies ↔ h ∈ l'.tallies) (htally : ∀ h, l.tally h = l'.tally h) :
    l = l' := by
  have htallies : l.tallies = l'.tallies := by
    apply Std.ExtTreeMap.ext_getElem?
    intro h
    by_cases hh : h ∈ l.tallies
    · rw [getElem?_of_mem hh, getElem?_of_mem ((hmem h).mp hh), htally h]
    · have hh' := mt (hmem h).mpr hh
      rw [Std.ExtTreeMap.getElem?_eq_none hh, Std.ExtTreeMap.getElem?_eq_none hh']
  cases l
  cases l'
  subst hvoters htallies
  rfl

theorem insert_votesOf_of_mem {l : Ledger} {a : Address} (ha : a ∈ l.voters) :
    l.voters.insert a (l.votesOf a) = l.voters := by
  apply Std.ExtTreeMap.ext_getElem?
  intro b
  rw [Std.ExtTreeMap.getElem?_insert]
  split
  · rename_i heq
    obtain rfl := Std.LawfulEqCmp.compare_eq_iff_eq.mp heq
    rw [Std.ExtTreeMap.getElem?_eq_some_getElem ha, Std.ExtTreeMap.getElem_eq_getD]
    rfl
  · rfl

/-! ## The highest height that passes a test -/

section Highest

variable {l : Ledger} {test : Tally → Bool}

theorem mem_filter_tallies {f : Height → Tally → Bool} {h : Height} :
    h ∈ l.tallies.filter f ↔ h ∈ l.tallies ∧ f h (l.tally h) = true := by
  rw [Std.ExtTreeMap.mem_filter]
  constructor
  · rintro ⟨hmem, hf⟩
    rw [Std.ExtTreeMap.getKey_eq, Std.ExtTreeMap.getElem_eq_getD ⟨0, 0⟩] at hf
    exact ⟨hmem, hf⟩
  · rintro ⟨hmem, hf⟩
    refine ⟨hmem, ?_⟩
    rwa [Std.ExtTreeMap.getKey_eq, Std.ExtTreeMap.getElem_eq_getD ⟨0, 0⟩]

theorem highestWhere?_eq_some_iff {h : Height} :
    l.highestWhere? test = some h ↔
      (h ∈ l.tallies ∧ test (l.tally h) = true) ∧
        ∀ k, k ∈ l.tallies → test (l.tally k) = true → k.toNat ≤ h.toNat := by
  rw [highestWhere?, Std.ExtTreeMap.maxKey?_eq_some_iff_mem_and_forall]
  simp only [mem_filter_tallies, isLE_compare_iff, and_imp]

theorem highestWhere?_eq_none_iff :
    l.highestWhere? test = none ↔ ∀ k, k ∈ l.tallies → test (l.tally k) = false := by
  rw [highestWhere?, Std.ExtTreeMap.maxKey?_eq_none_iff]
  constructor
  · intro hempty k hk
    by_contra htest
    have hmem : k ∈ l.tallies.filter fun _ tally => test tally :=
      mem_filter_tallies.mpr ⟨hk, by simpa using htest⟩
    rw [hempty] at hmem
    simp at hmem
  · intro hall
    rw [Std.ExtTreeMap.eq_empty_iff_forall_not_mem]
    intro k hk
    obtain ⟨hmem, htest⟩ := mem_filter_tallies.mp hk
    simp [hall k hmem] at htest

theorem le_getD_highestWhere? {h : Height} (hmem : h ∈ l.tallies)
    (htest : test (l.tally h) = true) (d : Height) :
    h.toNat ≤ ((l.highestWhere? test).getD d).toNat := by
  cases hhighest : l.highestWhere? test with
  | none =>
      have := highestWhere?_eq_none_iff.mp hhighest h hmem
      simp [htest] at this
  | some highest => exact (highestWhere?_eq_some_iff.mp hhighest).2 h hmem htest

theorem highest?_eq_some_iff {h : Height} :
    l.highest? = some h ↔ h ∈ l.tallies ∧ ∀ k, k ∈ l.tallies → k.toNat ≤ h.toNat := by
  rw [highest?, Std.ExtTreeMap.maxKey?_eq_some_iff_mem_and_forall]
  simp only [isLE_compare_iff]

theorem highest?_eq_none_iff : l.highest? = none ↔ ∀ k, k ∉ l.tallies := by
  rw [highest?, Std.ExtTreeMap.maxKey?_eq_none_iff, Std.ExtTreeMap.eq_empty_iff_forall_not_mem]

end Highest

/-! ## Pruning -/

/-- What is left of a ledger that keeps `window` heights: the heights above the highest less
`window`, with the tallies they had. -/
structure IsPruned (l : Ledger) (window : Nat) (pruned : Ledger) : Prop where
  voters : pruned.voters = l.voters
  mem_iff : ∀ h, h ∈ pruned.tallies ↔
    h ∈ l.tallies ∧ ∀ k, k ∈ l.tallies → k.toNat < h.toNat + window
  tally : ∀ h, h ∈ pruned.tallies → pruned.tally h = l.tally h

theorem isPruned_self {l : Ledger} {window : Nat}
    (hall : ∀ h, h ∈ l.tallies → ∀ k, k ∈ l.tallies → k.toNat < h.toNat + window) :
    l.IsPruned window l where
  voters := rfl
  mem_iff h := ⟨fun hmem => ⟨hmem, hall h hmem⟩, And.left⟩
  tally _ _ := rfl

theorem isPruned_prune? {l pruned : Ledger} {window : Word}
    (hprune : l.prune? window = some pruned) :
    l.IsPruned window.toNat pruned := by
  unfold prune? at hprune
  split at hprune
  · rename_i hnone
    have hempty := highest?_eq_none_iff.mp hnone
    obtain rfl := Option.some.inj hprune
    exact isPruned_self fun h hmem => absurd hmem (hempty h)
  · rename_i highest hsome
    obtain ⟨hmem, hmax⟩ := highest?_eq_some_iff.mp hsome
    split at hprune
    · rename_i hlt
      obtain rfl := Option.some.inj hprune
      rw [UInt64.lt_iff_toNat_lt] at hlt
      refine isPruned_self fun h _ k hk => ?_
      have := hmax k hk
      omega
    · rename_i hnlt
      obtain ⟨first, hfirst, rfl⟩ := Option.map_eq_some_iff.mp hprune
      rw [UInt64.lt_iff_toNat_lt] at hnlt
      have hle : window ≤ highest := by
        rw [UInt64.le_iff_toNat_le]
        omega
      have hfirstNat : first.toNat = highest.toNat - window.toNat + 1 := by
        rw [Word.succ?_eq_some_iff.mp hfirst, UInt64.toNat_sub_of_le _ _ hle]
      have hkept : ∀ h, h ∈ (l.tallies.filter fun height _ => first ≤ height) ↔
          h ∈ l.tallies ∧ first.toNat ≤ h.toNat := by
        intro h
        rw [mem_filter_tallies, decide_eq_true_iff, UInt64.le_iff_toNat_le]
      refine ⟨rfl, fun h => ?_, fun h hh => ?_⟩
      · rw [hkept]
        refine and_congr_right fun _ => ⟨fun hge k hk => ?_, fun hall => ?_⟩
        · have := hmax k hk
          omega
        · have := hall highest hmem
          omega
      · obtain ⟨hl, hge⟩ := (hkept h).mp hh
        have hgeWord : first ≤ h := by rwa [UInt64.le_iff_toNat_le]
        rw [Ledger.tally, Ledger.tally, ← Std.ExtTreeMap.getElem_eq_getD (h := hh),
          ← Std.ExtTreeMap.getElem_eq_getD (h := hl)]
        exact Std.ExtTreeMap.getElem_filter

theorem prune?_isSome {l : Ledger} {window : Word} (hwindow : 0 < window.toNat) :
    ∃ pruned, l.prune? window = some pruned := by
  unfold prune?
  split
  · exact ⟨l, rfl⟩
  · rename_i highest _
    split
    · exact ⟨l, rfl⟩
    · rename_i hnlt
      rw [UInt64.lt_iff_toNat_lt] at hnlt
      have hle : window ≤ highest := by
        rw [UInt64.le_iff_toNat_le]
        omega
      have hsub := UInt64.toNat_sub_of_le _ _ hle
      have hmax := Word.toNat_le highest
      cases hnext : Height.next? (highest - window) with
      | some first => exact ⟨_, rfl⟩
      | none =>
          have := Word.succ?_eq_none_iff.mp hnext
          omega

theorem IsPruned.votesOf {l pruned : Ledger} {window : Nat} (hpruned : l.IsPruned window pruned)
    (a : Address) : pruned.votesOf a = l.votesOf a := by
  rw [Ledger.votesOf, Ledger.votesOf, hpruned.voters]

theorem IsPruned.exists_ge_of_mem {l pruned : Ledger} {window : Nat}
    (hpruned : l.IsPruned window pruned) (hwindow : 0 < window) {h : Height}
    (hmem : h ∈ l.tallies) : ∃ top, top ∈ pruned.tallies ∧ h.toNat ≤ top.toNat := by
  cases hhighest : l.highest? with
  | none => exact absurd hmem (highest?_eq_none_iff.mp hhighest h)
  | some top =>
      obtain ⟨htop, hmax⟩ := highest?_eq_some_iff.mp hhighest
      refine ⟨top, (hpruned.mem_iff top).mpr ⟨htop, fun k hk => ?_⟩, hmax h hmem⟩
      have := hmax k hk
      omega

/-- A height is only dropped if it lies a whole window below one that is kept. -/
theorem IsPruned.mem_or_dropped {l pruned : Ledger} {window : Nat}
    (hpruned : l.IsPruned window pruned) (hwindow : 0 < window) {h : Height}
    (hmem : h ∈ l.tallies) :
    h ∈ pruned.tallies ∨ ∃ top, top ∈ pruned.tallies ∧ h.toNat + window ≤ top.toNat := by
  by_cases hkept : h ∈ pruned.tallies
  · exact .inl hkept
  · have hbelow : ∃ k, k ∈ l.tallies ∧ h.toNat + window ≤ k.toNat := by
      by_contra hnone
      simp only [not_exists, not_and, Nat.not_le] at hnone
      exact hkept ((hpruned.mem_iff h).mpr ⟨hmem, hnone⟩)
    obtain ⟨k, hk, hle⟩ := hbelow
    obtain ⟨top, htop, hkTop⟩ := hpruned.exists_ge_of_mem hwindow hk
    exact .inr ⟨top, htop, hle.trans hkTop⟩

theorem IsPruned.size_le {l pruned : Ledger} {window : Nat} (hpruned : l.IsPruned window pruned) :
    pruned.tallies.size ≤ window := by
  cases hhighest : l.highest? with
  | none =>
      have hempty := highest?_eq_none_iff.mp hhighest
      have hsize := size_le_card_of_mem pruned.tallies ∅ fun h hmem =>
        absurd ((hpruned.mem_iff h).mp hmem).1 (hempty h)
      exact hsize.trans (Nat.zero_le _)
  | some highest =>
      obtain ⟨hmem, hmax⟩ := highest?_eq_some_iff.mp hhighest
      let kept := (Finset.Ico (highest.toNat + 1 - window) (highest.toNat + 1)).image UInt64.ofNat
      have hsize : pruned.tallies.size ≤ kept.card := by
        apply size_le_card_of_mem
        intro h hh
        obtain ⟨hl, hall⟩ := (hpruned.mem_iff h).mp hh
        have hlow := hall highest hmem
        have hhigh := hmax h hl
        refine Finset.mem_image.mpr
          ⟨h.toNat, Finset.mem_Ico.mpr ⟨?_, ?_⟩, UInt64.ofNat_toNat⟩ <;> omega
      have hcard : kept.card ≤ highest.toNat + 1 - (highest.toNat + 1 - window) := by
        have himage := Finset.card_image_le
          (s := Finset.Ico (highest.toNat + 1 - window) (highest.toNat + 1)) (f := UInt64.ofNat)
        rwa [Nat.card_Ico] at himage
      omega

/-! ## Writing and reading back -/

theorem load_of_none {view : View} (hview : view key = .ok none) : load view = .ok empty := by
  rw [load, View.record?, hview]

theorem reads_format {l : Ledger} (hvoters : l.voters.size ≤ Word.maxNat)
    (htallies : l.tallies.size ≤ Word.maxNat) : format.Reads l := by
  have hvotes : ∀ v, format.votesFormat.Reads v := by
    intro v
    apply Format.Reads.via
    · exact (Format.reads_word _).pair (Format.reads_word _)
    · rfl
  have htally : ∀ t, format.tallyFormat.Reads t := by
    intro t
    apply Format.Reads.via
    · exact (Format.reads_word _).pair (Format.reads_word _)
    · rfl
  have hpair := (Format.Reads.map Format.reads_bytes hvotes hvoters).pair
    (Format.Reads.map Format.reads_word htally htallies)
  exact Format.Reads.via hpair rfl

theorem size_voters_lt {l : Ledger} {bytes : List UInt8} (hread : format.read bytes = .ok l) :
    l.voters.size < bytes.length := by
  have hvotes : format.votesFormat.Takes 16 := (Format.takes_word.pair Format.takes_word).via
  cases hdecode : format.decode bytes with
  | error e => simp [Format.read, hdecode, Except.map] at hread
  | ok decoded =>
      obtain ⟨⟨⟨voters, tallies⟩, rest⟩, hpair, hvia⟩ := bind_eq_ok_iff.mp hdecode
      obtain ⟨⟨first, middle⟩, hvoters, hrest⟩ := bind_eq_ok_iff.mp hpair
      obtain ⟨⟨second, left⟩, htallies, hboth⟩ := bind_eq_ok_iff.mp hrest
      obtain ⟨hmaps, rfl⟩ := Prod.mk.inj (Except.ok.inj hboth)
      obtain ⟨rfl, rfl⟩ := Prod.mk.inj hmaps
      obtain rfl := Except.ok.inj hvia
      have htaken := (Format.takes_bytes 20).map hvotes hvoters
      have hl : first = l.voters := by
        rw [Format.read, hdecode] at hread
        rw [← Except.ok.inj hread]
      rw [hl] at htaken
      omega

end Ledger

end FinalityGadget
