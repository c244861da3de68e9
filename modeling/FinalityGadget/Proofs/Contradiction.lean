import FinalityGadget.Contradiction

/-!
# Headers that do not contradict each other

Two headers of a generator do not contradict each other if the one that claims to have been forged
later acknowledges the other. Headers that follow one another in the order of forging do so all
along.
-/

namespace FinalityGadget.Header

/-- A header that names no height below an earlier one, nor claims a lower prevoted height. -/
structure Acknowledges (later earlier : Header) : Prop where
  forged : earlier.height.toNat ≤ later.previouslyForged.toNat
  prevoted : earlier.prevoted.toNat ≤ later.prevoted.toNat
  height : earlier.prevoted = later.prevoted → earlier.height.toNat < later.height.toNat

variable {a b : Header}

theorem conflict?_eq_none_iff : conflict? a b = none ↔ b.Acknowledges a := by
  unfold conflict?
  constructor
  · intro hnone
    split at hnone
    · simp at hnone
    · rename_i hbranch
      split at hnone
      · simp at hnone
      · rename_i hforged
        split at hnone
        · simp at hnone
        · rename_i hprevoted
          rw [UInt64.lt_iff_toNat_lt, Nat.not_lt] at hforged hprevoted
          refine ⟨hforged, hprevoted, fun heq => ?_⟩
          rw [not_and, UInt64.le_iff_toNat_le, Nat.not_le] at hbranch
          exact hbranch heq
  · rintro ⟨hforged, hprevoted, hheight⟩
    rw [if_neg, if_neg, if_neg]
    · rw [UInt64.lt_iff_toNat_lt]
      omega
    · rw [UInt64.lt_iff_toNat_lt]
      omega
    · rintro ⟨heq, hle⟩
      rw [UInt64.le_iff_toNat_le] at hle
      have := hheight heq
      omega

theorem contradiction?_eq_none_iff (hgenerator : a.generator = b.generator) (hid : a.id ≠ b.id) :
    a.contradiction? b = none ↔
      a.compareForged b ≠ .gt ∧ b.Acknowledges a ∨ a.compareForged b = .gt ∧ a.Acknowledges b := by
  unfold contradiction?
  rw [if_neg (by simp [hgenerator, hid])]
  by_cases hgt : a.compareForged b = .gt
  · simp [hgt, conflict?_eq_none_iff]
  · simp [hgt, conflict?_eq_none_iff]

theorem acknowledges_or (hgenerator : a.generator = b.generator) (hid : a.id ≠ b.id)
    (hnone : a.contradiction? b = none) : b.Acknowledges a ∨ a.Acknowledges b := by
  rcases (contradiction?_eq_none_iff hgenerator hid).mp hnone with ⟨-, hab⟩ | ⟨-, hba⟩
  · exact .inl hab
  · exact .inr hba

/-! ## The order of forging -/

theorem previouslyForged_le (hle : a.compareForged b ≠ .gt) :
    a.previouslyForged.toNat ≤ b.previouslyForged.toNat := by
  refine Nat.le_of_not_lt fun hlt => hle ?_
  unfold compareForged
  rw [Ordering.then_eq_gt]
  exact .inl (Std.compare_eq_gt.mpr (UInt64.lt_iff_toNat_lt.mpr hlt))

theorem compareForged_eq_lt (hforged : a.previouslyForged.toNat ≤ b.previouslyForged.toNat)
    (hprevoted : a.prevoted.toNat ≤ b.prevoted.toNat) (hheight : a.height.toNat < b.height.toNat) :
    a.compareForged b = .lt := by
  unfold compareForged
  simp only [Ordering.then_eq_lt, Std.compare_eq_lt, Std.LawfulEqCmp.compare_eq_iff_eq,
    UInt64.lt_iff_toNat_lt, ← UInt64.toNat_inj]
  omega

theorem compareForged_swap (a b : Header) : (a.compareForged b).swap = b.compareForged a := by
  unfold compareForged
  simp only [Ordering.swap_then, ← Std.OrientedOrd.eq_swap]

theorem id_eq_of_compareForged (heq : a.compareForged b = .eq) : a.id = b.id := by
  unfold compareForged at heq
  simp only [Ordering.then_eq_eq] at heq
  exact Std.LawfulEqCmp.compare_eq_iff_eq.mp heq.2.2.2

theorem contradiction?_comm (a b : Header) : a.contradiction? b = b.contradiction? a := by
  unfold contradiction?
  have hswap := compareForged_swap a b
  by_cases hsame : a.generator ≠ b.generator ∨ a.id = b.id
  · have hsame' : b.generator ≠ a.generator ∨ b.id = a.id := hsame.imp Ne.symm Eq.symm
    rw [if_pos hsame, if_pos hsame']
  · have hsame' : ¬ (b.generator ≠ a.generator ∨ b.id = a.id) :=
      fun h => hsame (h.imp Ne.symm Eq.symm)
    rw [if_neg hsame, if_neg hsame']
    simp only [not_or, ne_eq, Decidable.not_not] at hsame
    obtain ⟨hgenerator, hid⟩ := hsame
    cases horder : a.compareForged b with
    | eq => exact absurd (id_eq_of_compareForged horder) hid
    | lt =>
        rw [horder] at hswap
        simp [← hswap, hgenerator]
    | gt =>
        rw [horder] at hswap
        simp [← hswap, hgenerator]

/-- A header that acknowledges another one and comes after it in the order of forging. -/
structure Follows (later earlier : Header) : Prop extends later.Acknowledges earlier where
  order : earlier.previouslyForged.toNat ≤ later.previouslyForged.toNat

theorem Follows.trans {c : Header} (hcb : c.Follows b) (hba : b.Follows a)
    (hab : a.height.toNat < b.height.toNat) (hbc : b.height.toNat < c.height.toNat) :
    c.Follows a where
  forged := Nat.le_trans hba.forged hcb.order
  prevoted := Nat.le_trans hba.prevoted hcb.prevoted
  height _ := Nat.lt_trans hab hbc
  order := Nat.le_trans hba.order hcb.order

theorem Follows.contradiction?_eq_none (hfollows : b.Follows a)
    (hlt : a.height.toNat < b.height.toNat) : a.contradiction? b = none := by
  by_cases hother : a.generator ≠ b.generator ∨ a.id = b.id
  · unfold contradiction?
    rw [if_pos hother]
  · simp only [not_or, ne_eq, Decidable.not_not] at hother
    obtain ⟨hgenerator, hid⟩ := hother
    have horder := compareForged_eq_lt hfollows.order hfollows.prevoted hlt
    rw [contradiction?_eq_none_iff hgenerator hid]
    exact .inl ⟨by simp [horder], hfollows.toAcknowledges⟩

end FinalityGadget.Header
