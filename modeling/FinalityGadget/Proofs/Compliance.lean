import FinalityGadget.Proofs.Run

/-!
# Compliance with the rule of rewards

A header is compliant if the block that it names as its generator's last one is of that generator.
An accepted header cannot name an older one than the last: the header of the last would skip it.
-/

namespace FinalityGadget

namespace Window

variable {w : Window} {generator : Address} {previous : Header}

/-- The height of the highest retained header of a generator, 0 if there is none. -/
def lastHeight (w : Window) (generator : Address) : Nat :=
  ((w.headers.filter fun h => h.generator = generator).map fun h => h.height.toNat).max?.getD 0

theorem lastHeight_of_lastBy?_eq_some (hlast : w.lastBy? generator = some previous) :
    w.lastHeight generator = previous.height.toNat := by
  obtain ⟨⟨hmem, hgenerator⟩, hmax⟩ := lastBy?_eq_some_iff.mp hlast
  have hhighest :
      ((w.headers.filter fun h => h.generator = generator).map fun h => h.height.toNat).max? =
        some previous.height.toNat := by
    rw [List.max?_eq_some_iff]
    constructor
    · apply List.mem_map_of_mem (f := fun h : Header => h.height.toNat)
      exact List.mem_filter.mpr ⟨hmem, by simpa using hgenerator⟩
    · intro height hheight
      obtain ⟨p, hp, rfl⟩ := List.mem_map.mp hheight
      obtain ⟨hpmem, hpgenerator⟩ := List.mem_filter.mp hp
      exact hmax p hpmem (by simpa using hpgenerator)
  rw [lastHeight, hhighest]
  rfl

theorem lastHeight_of_lastBy?_eq_none (hnone : w.lastBy? generator = none) :
    w.lastHeight generator = 0 := by
  have hempty : w.headers.filter (fun h => h.generator = generator) = [] := by
    rw [List.filter_eq_nil_iff]
    exact List.find?_eq_none.mp hnone
  rw [lastHeight, hempty]
  rfl

/-- Headers of other blocks that lie above height 0 and below a header, each above the height that
it names. -/
structure Precedes (w : Window) (header : Header) : Prop where
  pos : ∀ p ∈ w.headers, 0 < p.height
  below : ∀ p ∈ w.headers, p.height < header.height
  forged : ∀ p ∈ w.headers, p.previouslyForged < p.height
  id_ne : ∀ p ∈ w.headers, p.id ≠ header.id

end Window

namespace Finality

variable {f : Finality} {header previous : Header} {store : Store} {db : Database}

theorem contradiction?_of_verify (hverify : f.verify header store db = .ok ())
    (hlast : store.headers.lastBy? header.generator = some previous) :
    previous.contradiction? header = none := by
  obtain ⟨⟨synced, ledger⟩, -, hchecked⟩ := bind_eq_ok_iff.mp hverify
  exact (check_eq_ok_iff.mp hchecked).2 previous hlast

theorem le_previouslyForged_of_verify (hverify : f.verify header store db = .ok ())
    (hprecedes : store.headers.Precedes header)
    (hlast : store.headers.lastBy? header.generator = some previous) :
    previous.height.toNat ≤ header.previouslyForged.toNat := by
  obtain ⟨⟨hmem, hgenerator⟩, -⟩ := Window.lastBy?_eq_some_iff.mp hlast
  have hbelow := UInt64.lt_iff_toNat_lt.mp (hprecedes.below previous hmem)
  have hforged := UInt64.lt_iff_toNat_lt.mp (hprecedes.forged previous hmem)
  have hnone := contradiction?_of_verify hverify hlast
  rcases Header.acknowledges_or hgenerator (hprecedes.id_ne previous hmem) hnone with
    hheader | hprevious
  · exact hheader.forged
  · have := hprevious.forged
    omega

end Finality

namespace Gadget

variable {header previous : Header} {headers : Window}

theorem isCompliant_of_lastBy?_eq_none (hclaim : header.previouslyForged < header.height)
    (hnone : headers.lastBy? header.generator = none) :
    isCompliant header headers = true ↔ header.previouslyForged = 0 := by
  rw [isCompliant, if_neg (UInt64.not_le.mpr hclaim), hnone]
  by_cases hzero : header.previouslyForged = 0
  · simp [hzero]
  · rw [if_neg hzero]
    cases hget : headers.get? header.previouslyForged with
    | none => simp [hzero]
    | some owner =>
        have hother := List.find?_eq_none.mp hnone owner (Window.get?_eq_some_iff.mp hget).1
        simpa [hzero] using hother

/-- A header that names no height below its generator's last one is compliant only if it names that
one: above it no header is of the generator. -/
theorem isCompliant_of_lastBy?_eq_some (hclaim : header.previouslyForged < header.height)
    (hlast : headers.lastBy? header.generator = some previous) (hpos : 0 < previous.height)
    (hle : previous.height.toNat ≤ header.previouslyForged.toNat) :
    isCompliant header headers = true ↔ header.previouslyForged = previous.height := by
  obtain ⟨⟨hmem, hgenerator⟩, hmax⟩ := Window.lastBy?_eq_some_iff.mp hlast
  have hnonzero : header.previouslyForged ≠ 0 := by
    intro hzero
    rw [UInt64.lt_iff_toNat_lt, UInt64.toNat_zero] at hpos
    rw [hzero, UInt64.toNat_zero] at hle
    omega
  rw [isCompliant, if_neg (UInt64.not_le.mpr hclaim), if_neg hnonzero]
  constructor
  · intro hcompliant
    cases hget : headers.get? header.previouslyForged with
    | none => simp [hget] at hcompliant
    | some owner =>
        obtain ⟨hownerMem, hownerHeight⟩ := Window.get?_eq_some_iff.mp hget
        have howner : owner.generator = header.generator := by simpa [hget] using hcompliant
        have hbound := hmax owner hownerMem howner
        rw [hownerHeight] at hbound
        exact UInt64.toNat_inj.mp (Nat.le_antisymm hbound hle)
  · intro hnamed
    have hget : headers.get? header.previouslyForged = some previous :=
      Window.get?_eq_some_iff.mpr ⟨hmem, hnamed.symm⟩
    simp [hget, hgenerator]

/-- For an accepted header the rule of rewards and the check for contradictions agree: it is
compliant if and only if it names the last block of its generator, and gets half of its reward
otherwise. -/
theorem isCompliant_exact {g : Gadget} {header : Header} {store : Store} {db : Database}
    (hverify : g.verify header store db = .ok ()) (hprecedes : store.headers.Precedes header)
    (hclaim : header.previouslyForged < header.height) :
    (isCompliant header store.headers = true ↔
        header.previouslyForged.toNat = store.headers.lastHeight header.generator) ∧
      blockReward header store.headers =
        if header.previouslyForged.toNat = store.headers.lastHeight header.generator then
          header.reward
        else header.reward / 2 := by
  have hiff : isCompliant header store.headers = true ↔
      header.previouslyForged.toNat = store.headers.lastHeight header.generator := by
    cases hlast : store.headers.lastBy? header.generator with
    | none =>
        rw [Window.lastHeight_of_lastBy?_eq_none hlast, ← UInt64.toNat_zero, UInt64.toNat_inj]
        exact isCompliant_of_lastBy?_eq_none hclaim hlast
    | some previous =>
        obtain ⟨⟨hmem, -⟩, -⟩ := Window.lastBy?_eq_some_iff.mp hlast
        rw [Window.lastHeight_of_lastBy?_eq_some hlast, UInt64.toNat_inj]
        exact isCompliant_of_lastBy?_eq_some hclaim hlast (hprecedes.pos previous hmem)
          (Finality.le_previouslyForged_of_verify hverify hprecedes hlast)
  refine ⟨hiff, ?_⟩
  unfold blockReward
  simp only [hiff]

/-- A generator names its own block, and then the block of another one: both headers are accepted,
and the second one gets half of its reward. -/
theorem isCompliant_exact_of_other :
    let g := (Node.start 4 (by decide) 0 []).gadget
    let first : Header := ⟨1, .ofNat 1, .ofNat 0, .ofNat 1, 0, 10, 0, 0⟩
    let second : Header := ⟨2, .ofNat 2, .ofNat 1, .ofNat 2, 0, 10, 0, 0⟩
    let store : Store := .ofHeaders ((g.newWindow.insert first).insert second)
    let own : Header := ⟨3, .ofNat 3, .ofNat 2, .ofNat 1, 0, 10, 1, 0⟩
    let other : Header := ⟨3, .ofNat 4, .ofNat 2, .ofNat 1, 0, 10, 2, 0⟩
    store.headers.lastHeight (.ofNat 1) = 1 ∧
      isCompliant own store.headers = true ∧ blockReward own store.headers = 10 ∧
      isCompliant other store.headers = false ∧ blockReward other store.headers = 5 := by
  intro g first second store own other
  have hlast : store.headers.lastHeight (.ofNat 1) = 1 := by decide +kernel
  have hown : store.headers.Precedes own :=
    ⟨by decide +kernel, by decide +kernel, by decide +kernel, by decide +kernel⟩
  have hother : store.headers.Precedes other :=
    ⟨by decide +kernel, by decide +kernel, by decide +kernel, by decide +kernel⟩
  have hownVerified : g.verify own store .empty = .ok () := by cbv
  have hotherVerified : g.verify other store .empty = .ok () := by cbv
  obtain ⟨hownIff, hownReward⟩ := isCompliant_exact hownVerified hown (by decide)
  obtain ⟨hotherIff, hotherReward⟩ := isCompliant_exact hotherVerified hother (by decide)
  have hskips : other.previouslyForged.toNat ≠ store.headers.lastHeight other.generator := by
    decide +kernel
  have hhalf : other.reward / 2 = 5 := by decide
  rw [if_neg hskips, hhalf] at hotherReward
  exact ⟨hlast, hownIff.mpr hlast.symm, hownReward.trans (if_pos hlast.symm),
    Bool.eq_false_iff.mpr (mt hotherIff.mp hskips), hotherReward⟩

end Gadget

end FinalityGadget
