import FinalityGadget.Proofs.Contradiction
import FinalityGadget.Proofs.ForkChoice
import Mathlib.Data.Set.Defs

/-!
# Evidence of double forging

Two headers of a generator contradict each other unless one of them acknowledges the other: it names
a height that is no lower than the other header, and claims a prevoted height that is no lower. What
two headers that do not contradict each other prevote is then apart, so a generator that forges two
blocks for a height leaves evidence of it.
-/

namespace FinalityGadget

namespace Header

/-- The heights above the one that a header names, up to its own. -/
def prevoteInterval (header : Header) : Set Height :=
  {h | header.previouslyForged < h ∧ h ≤ header.height}

variable {a b : Header}

theorem follows_iff (ha : a.previouslyForged < a.height) (hb : b.previouslyForged < b.height) :
    b.Follows a ↔ a.height ≤ b.previouslyForged ∧ a.prevoted ≤ b.prevoted := by
  rw [UInt64.lt_iff_toNat_lt] at ha hb
  rw [UInt64.le_iff_toNat_le, UInt64.le_iff_toNat_le]
  constructor
  · intro hfollows
    exact ⟨hfollows.forged, hfollows.prevoted⟩
  · rintro ⟨hforged, hprevoted⟩
    exact
      { forged := hforged
        prevoted := hprevoted
        height := fun _ => by omega
        order := by omega }

theorem contradiction?_eq_none_iff_follows (hgenerator : a.generator = b.generator)
    (hid : a.id ≠ b.id) (ha : a.previouslyForged < a.height)
    (hb : b.previouslyForged < b.height) :
    a.contradiction? b = none ↔ b.Follows a ∨ a.Follows b := by
  constructor
  · intro hnone
    have hab := follows_iff ha hb
    have hba := follows_iff hb ha
    rw [UInt64.le_iff_toNat_le, UInt64.le_iff_toNat_le] at hab hba
    apply (acknowledges_or hgenerator hid hnone).imp
    · exact fun hack => hab.mpr ⟨hack.forged, hack.prevoted⟩
    · exact fun hack => hba.mpr ⟨hack.forged, hack.prevoted⟩
  · rw [UInt64.lt_iff_toNat_lt] at ha hb
    rintro (hfollows | hfollows)
    · have hforged := hfollows.forged
      apply hfollows.contradiction?_eq_none
      omega
    · have hforged := hfollows.forged
      rw [contradiction?_comm]
      apply hfollows.contradiction?_eq_none
      omega

theorem Follows.not_mem_prevoteInterval (hfollows : b.Follows a) {h : Height}
    (hmem : h ∈ a.prevoteInterval) : h ∉ b.prevoteInterval := by
  obtain ⟨-, hle⟩ := hmem
  rintro ⟨hlt, -⟩
  have hforged := hfollows.forged
  rw [UInt64.le_iff_toNat_le] at hle
  rw [UInt64.lt_iff_toNat_lt] at hlt
  omega

theorem not_mem_prevoteInterval (hgenerator : a.generator = b.generator)
    (hid : a.id ≠ b.id) (ha : a.previouslyForged < a.height)
    (hb : b.previouslyForged < b.height) (hnone : a.contradiction? b = none) :
    ∀ h ∈ a.prevoteInterval, h ∉ b.prevoteInterval := by
  intro h hmemA hmemB
  apply ((contradiction?_eq_none_iff_follows hgenerator hid ha hb).mp hnone).elim
  · exact fun hfollows => hfollows.not_mem_prevoteInterval hmemA hmemB
  · exact fun hfollows => hfollows.not_mem_prevoteInterval hmemB hmemA

/-- Both of two headers for a height prevote it, so they contradict each other. -/
theorem exists_contradiction?_of_height_eq (hgenerator : a.generator = b.generator)
    (hid : a.id ≠ b.id) (ha : a.previouslyForged < a.height)
    (hb : b.previouslyForged < b.height) (hheight : a.height = b.height) :
    ∃ c, a.contradiction? b = some c := by
  cases hcontradiction : a.contradiction? b with
  | some c => exact ⟨c, rfl⟩
  | none =>
      have hmemA : a.height ∈ a.prevoteInterval := ⟨ha, UInt64.le_refl _⟩
      have hmemB : a.height ∈ b.prevoteInterval := hheight ▸ ⟨hb, UInt64.le_refl _⟩
      exact absurd hmemB (not_mem_prevoteInterval hgenerator hid ha hb hcontradiction _ hmemA)

theorem contradiction?_eq_some {c : Contradiction} (hsome : a.contradiction? b = some c) :
    c.generator = a.generator ∧
      (c.earlier = a.id ∧ c.later = b.id ∨ c.earlier = b.id ∧ c.later = a.id) := by
  unfold contradiction? at hsome
  split at hsome
  · cases hsome
  · by_cases horder : a.compareForged b = .gt
    · rw [if_pos horder] at hsome
      obtain ⟨kind, -, rfl⟩ := Option.map_eq_some_iff.mp hsome
      exact ⟨rfl, .inr ⟨rfl, rfl⟩⟩
    · rw [if_neg horder] at hsome
      obtain ⟨kind, -, rfl⟩ := Option.map_eq_some_iff.mp hsome
      exact ⟨rfl, .inl ⟨rfl, rfl⟩⟩

theorem eq_of_forkChoice_eq_doubleForging {context : SlotContext}
    (hdouble : forkChoice a b context = .doubleForging) :
    a.height = b.height ∧ a.generator = b.generator ∧ a.id ≠ b.id := by
  unfold forkChoice at hdouble
  split at hdouble
  · cases hdouble
  · split at hdouble
    · cases hdouble
    · rename_i hid
      split at hdouble
      · rename_i hforged
        rw [isDoubleForging, decide_eq_true_iff] at hforged
        exact ⟨hforged.1, hforged.2, hid⟩
      · split at hdouble
        · cases hdouble
        · split at hdouble <;> cases hdouble

end Header

/-- The order of two headers does not matter for their contradiction. Two headers of a generator
that name lower heights than their own do not contradict each other exactly if one acknowledges the
other; what they prevote is then apart, and their heights differ. Where the fork choice finds double
forging, there is a contradiction that names both headers. -/
theorem contradiction_exact :
    (∀ a b : Header, a.contradiction? b = b.contradiction? a) ∧
    (∀ a b : Header, a.generator = b.generator → a.id ≠ b.id →
      a.previouslyForged < a.height → b.previouslyForged < b.height →
        (a.contradiction? b = none ↔
          (a.height ≤ b.previouslyForged ∧ a.prevoted ≤ b.prevoted) ∨
            (b.height ≤ a.previouslyForged ∧ b.prevoted ≤ a.prevoted)) ∧
        (a.contradiction? b = none → ∀ h ∈ a.prevoteInterval, h ∉ b.prevoteInterval) ∧
        (a.height = b.height → ∃ c, a.contradiction? b = some c)) ∧
    ∀ (candidate tip : Header) (context : SlotContext),
      candidate.previouslyForged < candidate.height → tip.previouslyForged < tip.height →
      forkChoice candidate tip context = .doubleForging →
        ∃ c, candidate.contradiction? tip = some c ∧ c.generator = tip.generator ∧
          (c.earlier = candidate.id ∧ c.later = tip.id ∨
            c.earlier = tip.id ∧ c.later = candidate.id) := by
  refine ⟨Header.contradiction?_comm, fun a b hgenerator hid ha hb => ⟨?_, ?_, ?_⟩, ?_⟩
  · rw [Header.contradiction?_eq_none_iff_follows hgenerator hid ha hb,
      Header.follows_iff ha hb, Header.follows_iff hb ha]
  · exact Header.not_mem_prevoteInterval hgenerator hid ha hb
  · exact Header.exists_contradiction?_of_height_eq hgenerator hid ha hb
  · intro candidate tip context hcandidate htip hdouble
    obtain ⟨hheight, hgenerator, hid⟩ := Header.eq_of_forkChoice_eq_doubleForging hdouble
    obtain ⟨c, hc⟩ :=
      Header.exists_contradiction?_of_height_eq hgenerator hid hcandidate htip hheight
    obtain ⟨hnamed, hids⟩ := Header.contradiction?_eq_some hc
    exact ⟨c, hc, hnamed.trans hgenerator, hids⟩

/-- A second block for the height of the tip, and one that follows the tip. -/
theorem contradiction_exact_of_tip :
    let slots : Slots := ⟨5, 10, by decide⟩
    let tip : Header := ⟨7, .ofNat 7, .ofNat 6, .ofNat 1, 21, 0, 3, 2⟩
    let second : Header := ⟨7, .ofNat 8, .ofNat 6, .ofNat 1, 22, 0, 3, 2⟩
    let next : Header := ⟨9, .ofNat 9, .ofNat 5, .ofNat 1, 31, 0, 7, 2⟩
    forkChoice second tip ⟨slots, 23⟩ = .doubleForging ∧
      (∃ c, second.contradiction? tip = some c ∧ c.generator = .ofNat 1) ∧
      tip.contradiction? next = none ∧ next.contradiction? tip = none ∧
      ∀ h ∈ tip.prevoteInterval, h ∉ next.prevoteInterval := by
  intro slots tip second next
  have hdouble : forkChoice second tip ⟨slots, 23⟩ = .doubleForging := by decide +kernel
  have htip : tip.previouslyForged < tip.height := by decide
  have hnext : next.previouslyForged < next.height := by decide
  obtain ⟨hcomm, hpairs, hforks⟩ := contradiction_exact
  obtain ⟨c, hc, hgenerator, -⟩ := hforks second tip ⟨slots, 23⟩ (by decide) htip hdouble
  obtain ⟨hiff, hapart, -⟩ := hpairs tip next rfl (by decide +kernel) htip hnext
  have hnone : tip.contradiction? next = none := by
    apply hiff.mpr
    exact .inl ⟨by decide, by decide⟩
  exact ⟨hdouble, ⟨c, hc, hgenerator⟩, hnone, (hcomm next tip).trans hnone, hapart hnone⟩

end FinalityGadget
