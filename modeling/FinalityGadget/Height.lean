import FinalityGadget.Word

/-!
# Heights

The position of a block in its chain; the genesis block has height 0. A `Span` is a run of
consecutive heights, kept by its first height and its length so that the span between two far
heights costs nothing until it is listed.
-/

namespace FinalityGadget

/-- The position of a block in its chain. -/
abbrev Height := Word

/-- Consecutive heights, from `start` upwards. -/
structure Span where
  start : Height
  length : Nat
deriving DecidableEq, Repr

namespace Span

/-- The first `n` heights of the span. -/
def take (n : Nat) (s : Span) : Span := { s with length := min n s.length }

/-- The heights of the span, lowest first. -/
def toList (s : Span) : List Height := (List.range' s.start.toNat s.length).map UInt64.ofNat

end Span

namespace Height

def next? (h : Height) : Option Height := Word.succ? h

/-- The height `delta` below `h`, stopping at the genesis height. -/
def below (h : Height) (delta : Word) : Height := Word.satSub h delta

/-- The heights from `low` on that lie below `high`. -/
def upTo (low high : Height) : Span := ⟨low, high.toNat - low.toNat⟩

/-- The heights from `low` to `high`, both included. -/
def through (low high : Height) : Span := ⟨low, high.toNat + 1 - low.toNat⟩

def display (h : Height) : String := toString h.toNat

/-- The labelled form of a height, as it stands in traces. -/
def label (h : Height) : String := s!"BlockNumber({h.toNat})"

theorem mem_toList_upTo {low high h : Height} :
    h ∈ (upTo low high).toList ↔ low.toNat ≤ h.toNat ∧ h.toNat < high.toNat := by
  have hh := Word.toNat_le high
  simp only [upTo, Span.toList, List.mem_map, List.mem_range'_1]
  constructor
  · rintro ⟨n, hn, rfl⟩
    have hlt : n < 2 ^ 64 := by
      unfold Word.maxNat at hh
      omega
    rw [UInt64.toNat_ofNat_of_lt' hlt]
    omega
  · intro hle
    exact ⟨h.toNat, by omega, UInt64.ofNat_toNat⟩

theorem mem_toList_through {low high h : Height} :
    h ∈ (through low high).toList ↔ low.toNat ≤ h.toNat ∧ h.toNat ≤ high.toNat := by
  have hh := Word.toNat_le high
  simp only [through, Span.toList, List.mem_map, List.mem_range'_1]
  constructor
  · rintro ⟨n, hn, rfl⟩
    have hlt : n < 2 ^ 64 := by
      unfold Word.maxNat at hh
      omega
    rw [UInt64.toNat_ofNat_of_lt' hlt]
    omega
  · intro hle
    exact ⟨h.toNat, by omega, UInt64.ofNat_toNat⟩

end Height

end FinalityGadget
