/-!
# Words

Heights, timestamps, vote tallies and metric counters are 64-bit words. Windows are computed with
saturating arithmetic, which stops at either end of the range; steps to a next value are checked and
have no result at the upper end. Every operation is described by its value in `Nat`.
-/

namespace FinalityGadget

abbrev Word := UInt64

namespace Word

/-- The largest word, as a natural number. -/
def maxNat : Nat := 0xFFFFFFFFFFFFFFFF

/-- The word nearest to `n`. -/
def clamp (n : Nat) : Word := UInt64.ofNat (min n maxNat)

def satAdd (a b : Word) : Word := clamp (a.toNat + b.toNat)

def satSub (a b : Word) : Word := clamp (a.toNat - b.toNat)

def satMul (a b : Word) : Word := clamp (a.toNat * b.toNat)

/-- The word after `a`, unless `a` is the largest. -/
def succ? (a : Word) : Option Word := if a.toNat < maxNat then some (a + 1) else none

theorem toNat_le (a : Word) : a.toNat ≤ maxNat := by
  have := a.toNat_lt
  unfold maxNat
  omega

@[simp] theorem toNat_clamp (n : Nat) : (clamp n).toNat = min n maxNat := by
  have hlt : min n maxNat < 2 ^ 64 := by
    unfold maxNat
    omega
  simpa [clamp] using Nat.mod_eq_of_lt hlt

@[simp] theorem toNat_satAdd (a b : Word) :
    (satAdd a b).toNat = min (a.toNat + b.toNat) maxNat := toNat_clamp _

@[simp] theorem toNat_satMul (a b : Word) :
    (satMul a b).toNat = min (a.toNat * b.toNat) maxNat := toNat_clamp _

@[simp] theorem toNat_satSub (a b : Word) : (satSub a b).toNat = a.toNat - b.toNat := by
  have := toNat_le a
  simp only [satSub, toNat_clamp]
  omega

theorem succ?_eq_some_iff {a b : Word} : succ? a = some b ↔ b.toNat = a.toNat + 1 := by
  have hb := toNat_le b
  unfold succ?
  split
  · rename_i hlt
    have hsucc : (a + 1).toNat = a.toNat + 1 := by
      simp only [UInt64.toNat_add, UInt64.toNat_one]
      unfold maxNat at hlt
      omega
    rw [Option.some.injEq, ← UInt64.toNat_inj, hsucc, eq_comm]
  · simp only [reduceCtorEq, false_iff]
    omega

theorem succ?_eq_none_iff {a : Word} : succ? a = none ↔ a.toNat = maxNat := by
  have := toNat_le a
  unfold succ?
  split <;> simp only [reduceCtorEq, false_iff, true_iff] <;> omega

end Word

end FinalityGadget
