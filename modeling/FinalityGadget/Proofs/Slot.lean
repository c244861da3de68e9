import FinalityGadget.Proofs.Height
import FinalityGadget.Slot
import Mathlib.Data.Nat.Basic
import Mathlib.Order.Interval.Set.Defs

/-!
# Slots in exact arithmetic

The slot of a time and the times of a slot as natural numbers, without saturation. Every time from
genesis on lies in exactly one slot.
-/

namespace FinalityGadget.Slots

theorem toNat_number (s : Slots) (time : Word) :
    (s.number time).toNat = (time.toNat - s.genesis.toNat) / s.blockTime.toNat := by
  rw [number, UInt64.toNat_div, Word.toNat_satSub]

theorem toNat_start (s : Slots) (slot : Word) :
    (s.start slot).toNat =
      min (s.genesis.toNat + slot.toNat * s.blockTime.toNat) Word.maxNat := by
  rw [start, Word.toNat_satAdd, Word.toNat_satMul]
  omega

theorem toNat_blockTime_pos (s : Slots) : 0 < s.blockTime.toNat :=
  UInt64.lt_iff_toNat_lt.mp s.blockTime_pos

theorem ofDuration?_eq_some {genesis : Word} {blockTime : Duration} {s : Slots}
    (haccepted : ofDuration? genesis blockTime = some s) :
    s.genesis = genesis ∧ s.blockTime = blockTime.seconds := by
  unfold ofDuration? at haccepted
  split at haccepted
  · obtain rfl := Option.some.inj haccepted
    exact ⟨rfl, rfl⟩
  · simp at haccepted

/-- The times from the start of a slot up to the start of the next one. Neither the slot nor the
times need be words. -/
def times (s : Slots) (slot : Nat) : Set Nat :=
  Set.Ico (s.genesis.toNat + slot * s.blockTime.toNat)
    (s.genesis.toNat + (slot + 1) * s.blockTime.toNat)

variable {s : Slots}

/-- From genesis on, the slot of a time is found by division. -/
theorem mem_times_iff {slot time : Nat} (hgenesis : s.genesis.toNat ≤ time) :
    time ∈ s.times slot ↔ slot = (time - s.genesis.toNat) / s.blockTime.toNat := by
  have hnext : (slot + 1) * s.blockTime.toNat =
      slot * s.blockTime.toNat + s.blockTime.toNat := Nat.succ_mul _ _
  have hpos := s.toNat_blockTime_pos
  rw [times, Set.mem_Ico, eq_comm, Nat.div_eq_iff hpos, hnext]
  omega

theorem mem_times_number_iff {slot : Nat} {time : Word} (hgenesis : s.genesis ≤ time) :
    time.toNat ∈ s.times slot ↔ slot = (s.number time).toNat := by
  rw [toNat_number, mem_times_iff (UInt64.le_iff_toNat_le.mp hgenesis)]

/-- No time before genesis is within a slot, though its number is 0. -/
theorem isWithin_iff {slot time : Word} :
    s.isWithin slot time = true ↔ time.toNat ∈ s.times slot.toNat := by
  rw [isWithin, decide_eq_true_iff]
  constructor
  · rintro ⟨hgenesis, rfl⟩
    exact (mem_times_number_iff hgenesis).mpr rfl
  · intro hmem
    have hgenesis : s.genesis ≤ time := UInt64.le_iff_toNat_le.mpr (Nat.le_of_add_right_le hmem.1)
    exact ⟨hgenesis, UInt64.toNat_inj.mp ((mem_times_number_iff hgenesis).mp hmem).symm⟩

theorem number_le_number {earlier later : Word} (hle : earlier ≤ later) :
    s.number earlier ≤ s.number later := by
  rw [UInt64.le_iff_toNat_le] at hle ⊢
  rw [toNat_number, toNat_number]
  exact Nat.div_le_div_right (Nat.sub_le_sub_right hle _)

theorem start_number_le {time : Word} (hgenesis : s.genesis ≤ time) :
    s.start (s.number time) ≤ time := by
  have hmem := (mem_times_number_iff hgenesis).mpr rfl
  rw [UInt64.le_iff_toNat_le, toNat_start]
  exact Nat.le_trans (Nat.min_le_left _ _) hmem.1

theorem number_start {slot : Word}
    (hfits : s.genesis.toNat + slot.toNat * s.blockTime.toNat ≤ Word.maxNat) :
    s.number (s.start slot) = slot := by
  rw [← UInt64.toNat_inj, toNat_number, toNat_start, Nat.min_eq_left hfits,
    Nat.add_sub_cancel_left, Nat.mul_div_cancel _ s.toNat_blockTime_pos]

end FinalityGadget.Slots
