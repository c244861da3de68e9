import FinalityGadget.Proofs.ForkChoice

/-!
# Slots and the window of a tie break

The slots cut the times from genesis on into windows of equal length, also where a slot starts or
ends past the last word. A block can win a tie exactly at the times of the slot that it was forged
in.
-/

namespace FinalityGadget.Slots

variable {s : Slots} {candidate : Header} {receivedAt : Word}

/-- A block forged before genesis may still arrive in time; one forged later has to arrive in its
slot. -/
theorem arrivesInTime_iff_exists (hgenesis : s.genesis ≤ candidate.timestamp) :
    candidate.ArrivesInTime ⟨s, receivedAt⟩ ↔
      ∃ slot, candidate.timestamp.toNat ∈ s.times slot ∧ receivedAt.toNat ∈ s.times slot := by
  rw [Header.arrivesInTime_iff]
  constructor
  · exact fun htime => ⟨_, (mem_times_number_iff hgenesis).mpr rfl, htime⟩
  · rintro ⟨slot, hforged, hreceived⟩
    rw [← (mem_times_number_iff hgenesis).mp hforged]
    exact hreceived

/-- The slots of an accepted configuration in exact arithmetic: the times of a slot, the one slot of
a time from genesis on, the order of slots, and their starts as far as these are words. A block
forged from genesis on wins a tie against a tip that it competes with exactly if its id is smaller
and it is received in the slot that it was forged in. -/
theorem slots_exact {genesis : Word} {blockTime : Duration} {s : Slots}
    (haccepted : ofDuration? genesis blockTime = some s) :
    (∀ slot time : Word, s.isWithin slot time = true ↔
      genesis.toNat + slot.toNat * blockTime.seconds.toNat ≤ time.toNat ∧
        time.toNat < genesis.toNat + (slot.toNat + 1) * blockTime.seconds.toNat) ∧
    (∀ time : Word, genesis ≤ time →
      (∀ slot, time.toNat ∈ s.times slot ↔ slot = (s.number time).toNat) ∧
        s.start (s.number time) ≤ time) ∧
    (∀ earlier later : Word, earlier ≤ later → s.number earlier ≤ s.number later) ∧
    (∀ slot : Word, genesis.toNat + slot.toNat * blockTime.seconds.toNat ≤ Word.maxNat →
      s.number (s.start slot) = slot) ∧
    ∀ (candidate tip : Header) (receivedAt : Word), genesis ≤ candidate.timestamp →
      (forkChoice candidate tip ⟨s, receivedAt⟩ = .tieBreak ↔
        candidate.Competes tip ∧ compare candidate.id tip.id = .lt ∧
          ∃ slot, candidate.timestamp.toNat ∈ s.times slot ∧ receivedAt.toNat ∈ s.times slot) := by
  obtain ⟨rfl, hblockTime⟩ := ofDuration?_eq_some haccepted
  rw [← hblockTime]
  refine ⟨fun slot time => isWithin_iff, fun time hgenesis => ?_, fun _ _ => number_le_number,
    fun slot => number_start, fun candidate tip receivedAt hgenesis => ?_⟩
  · exact ⟨fun slot => mem_times_number_iff hgenesis, start_number_le hgenesis⟩
  · rw [Header.forkChoice_eq_tieBreak_iff, arrivesInTime_iff_exists hgenesis]

/-- Slots of ten seconds of which the third one, the last to start at a word, ends past the last
word. A block of it wins a tie at the last word and not a second before the slot starts. -/
theorem slots_exact_of_last :
    let genesis : Word := 0xFFFFFFFFFFFFFFE6
    let last : Word := 0xFFFFFFFFFFFFFFFF
    let a : Header := ⟨7, .ofNat 8, .ofNat 6, .ofNat 1, 0xFFFFFFFFFFFFFFFB, 0, 0, 4⟩
    let b : Header := ⟨7, .ofNat 9, .ofNat 6, .ofNat 2, 0xFFFFFFFFFFFFFFFA, 0, 0, 4⟩
    ∃ s, ofDuration? genesis (.ofMilliseconds 10500) = some s ∧ s.isWithin 2 last = true ∧
      (∀ slot, last.toNat ∈ s.times slot ↔ slot = 2) ∧ s.number genesis ≤ s.number last ∧
      s.number (s.start 2) = 2 ∧ forkChoice a b ⟨s, last⟩ = .tieBreak ∧
      forkChoice a b ⟨s, 0xFFFFFFFFFFFFFFF9⟩ ≠ .tieBreak := by
  intro genesis last a b
  let s : Slots := ⟨genesis, 10, by decide⟩
  have haccepted : ofDuration? genesis (.ofMilliseconds 10500) = some s := rfl
  obtain ⟨hwithin, hunique, hmono, hstart, htie⟩ := slots_exact haccepted
  have hlast : genesis ≤ last := by decide
  have hforged : genesis ≤ a.timestamp := by decide
  have hslot : ∀ slot, last.toNat ∈ s.times slot ↔ slot = 2 := by
    intro slot
    have hnumber : (s.number last).toNat = 2 := by decide
    rw [(hunique last hlast).1 slot, hnumber]
  refine ⟨s, haccepted, ?_, hslot, hmono genesis last hlast, hstart 2 (by decide), ?_, ?_⟩
  · exact (hwithin 2 last).mpr (by decide)
  · have hcompetes : a.Competes b := by constructor <;> decide +kernel
    have hforgedIn := ((hunique a.timestamp hforged).1 2).mpr (by decide)
    exact (htie a b last hforged).mpr
      ⟨hcompetes, by decide +kernel, 2, hforgedIn, (hslot 2).mpr rfl⟩
  · intro hwins
    obtain ⟨-, -, slot, hforgedIn, hreceivedIn⟩ := (htie a b _ hforged).mp hwins
    have hsecond := ((hunique _ (by decide)).1 slot).mp hreceivedIn
    have hthird := ((hunique a.timestamp hforged).1 slot).mp hforgedIn
    rw [hsecond] at hthird
    exact absurd hthird (by decide)

end FinalityGadget.Slots
