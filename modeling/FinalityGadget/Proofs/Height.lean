import FinalityGadget.Height
import Mathlib.Data.List.Induction

/-!
# Heights in ascending order

The heights of a span are listed once each, lowest first, so the last of them is the highest.
-/

namespace FinalityGadget

theorem Word.toNat_max (a b : Word) : (max a b).toNat = max a.toNat b.toNat := by
  have hmax : max a b = if a ≤ b then b else a := rfl
  rw [hmax]
  split
  · rename_i hle
    rw [UInt64.le_iff_toNat_le] at hle
    omega
  · rename_i hnle
    rw [UInt64.le_iff_toNat_le] at hnle
    omega

theorem Word.toNat_min (a b : Word) : (min a b).toNat = min a.toNat b.toNat := by
  have hmin : min a b = if a ≤ b then a else b := rfl
  rw [hmin]
  split
  · rename_i hle
    rw [UInt64.le_iff_toNat_le] at hle
    omega
  · rename_i hnle
    rw [UInt64.le_iff_toNat_le] at hnle
    omega

theorem Word.toNat_ofNat_of_le {n : Nat} (hn : n ≤ Word.maxNat) : (UInt64.ofNat n).toNat = n := by
  have hlt : n < 2 ^ 64 := by
    unfold Word.maxNat at hn
    omega
  exact UInt64.toNat_ofNat_of_lt' hlt

namespace Height

/-- Heights listed from the lowest up, each once. -/
def Ascending (heights : List Height) : Prop := heights.Pairwise fun a b => a.toNat < b.toNat

theorem ascending_nil : Ascending [] := List.Pairwise.nil

theorem Ascending.filter {heights : List Height} (h : Ascending heights) (p : Height → Bool) :
    Ascending (heights.filter p) := List.Pairwise.filter p h

theorem Ascending.nodup {heights : List Height} (h : Ascending heights) : heights.Nodup := by
  refine h.imp fun {a b} hlt heq => ?_
  rw [heq] at hlt
  exact Nat.lt_irrefl _ hlt

theorem Ascending.le_getLast {heights : List Height} (h : Ascending heights) {a : Height}
    (ha : a ∈ heights) (d : Height) : a.toNat ≤ (heights.getLast?.getD d).toNat := by
  induction heights using List.reverseRecOn with
  | nil => simp at ha
  | append_singleton heights last _ =>
      rw [List.getLast?_concat, Option.getD_some]
      rcases List.mem_append.mp ha with hmem | hmem
      · exact Nat.le_of_lt ((List.pairwise_append.mp h).2.2 a hmem last (by simp))
      · exact Nat.le_of_eq (congrArg UInt64.toNat (List.mem_singleton.mp hmem))

theorem Ascending.getLast?_eq {heights : List Height} (h : Ascending heights) {top : Height}
    (htop : top ∈ heights) (hmax : ∀ a ∈ heights, a.toNat ≤ top.toNat) :
    heights.getLast? = some top := by
  cases hlast : heights.getLast? with
  | none =>
      rw [List.getLast?_eq_none_iff.mp hlast] at htop
      simp at htop
  | some last =>
      have hle := h.le_getLast htop 0
      have hge := hmax last (List.mem_of_getLast? hlast)
      rw [hlast, Option.getD_some] at hle
      rw [UInt64.toNat_inj.mp (Nat.le_antisymm hle hge)]

theorem ascending_toList {s : Span} (hfits : s.start.toNat + s.length ≤ Word.maxNat + 1) :
    Ascending s.toList := by
  have hrange : (List.range' s.start.toNat s.length).Pairwise fun m n => m < n :=
    List.pairwise_lt_range'
  refine List.pairwise_map.mpr (hrange.imp_of_mem fun {m n} hm hn hlt => ?_)
  have hmBound := List.mem_range'_1.mp hm
  have hnBound := List.mem_range'_1.mp hn
  rw [Word.toNat_ofNat_of_le (by omega), Word.toNat_ofNat_of_le (by omega)]
  exact hlt

theorem ascending_upTo (low high : Height) : Ascending (upTo low high).toList := by
  have hlow := Word.toNat_le low
  have hhigh := Word.toNat_le high
  apply ascending_toList
  simp only [upTo]
  omega

theorem ascending_through (low high : Height) : Ascending (through low high).toList := by
  have hlow := Word.toNat_le low
  have hhigh := Word.toNat_le high
  apply ascending_toList
  simp only [through]
  omega

end Height

end FinalityGadget
