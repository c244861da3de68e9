import FinalityGadget.Finality.Trail
import FinalityGadget.Proofs.Height

/-!
# Where a forging history leaves the chain

A history that is broken off names heights in descending order. If every header of a generator that
is retained from some height on names a height that is no lower, the history of the generator cannot
get below that height: it leaves the chain above it.
-/

namespace FinalityGadget

namespace Trail

/-- The history leaves the chain at a height from `low` on, or at one where nothing is retained. -/
def LeavesAbove (low : Nat) : Trail → Prop
  | .missing _ => True
  | .broken height => low ≤ height.toNat
  | .complete => False

variable {headers : Window} {generator : Address} {lowest : Nat}

theorem broken_le_named {height : Nat} {named broken : Height}
    (hscan : scan headers generator lowest height named = .broken broken) :
    broken.toNat ≤ named.toNat := by
  induction height generalizing named with
  | zero => simp [scan] at hscan
  | succ height ih =>
      unfold scan at hscan
      split at hscan
      · simp at hscan
      · split at hscan
        · split at hscan
          · simp at hscan
          · rename_i previous _
            split at hscan
            · obtain rfl := Trail.broken.inj hscan
              exact Nat.le_refl _
            · rename_i hlower
              have hlt : previous.previouslyForged.toNat < named.toNat := by
                simp only [not_or, UInt64.not_le, UInt64.lt_iff_toNat_lt] at hlower
                exact hlower.2
              have := ih hscan
              omega
        · exact ih hscan

/-- A history that starts from `low` on and never names a lower height leaves the chain there. -/
theorem scan_leavesAbove {low : Nat} (hlow : 0 < low) (hlowest : lowest ≤ low)
    (hclosed : ∀ h ∈ headers.headers, h.generator = generator → low ≤ h.height.toNat →
      h.previouslyForged.toNat < h.height.toNat → low ≤ h.previouslyForged.toNat)
    {height : Nat} {named : Height} (hnamed : low ≤ named.toNat) (hheight : named.toNat ≤ height) :
    (scan headers generator lowest height named).LeavesAbove low := by
  induction height generalizing named with
  | zero => omega
  | succ height ih =>
      unfold scan
      rw [if_neg (by omega)]
      split
      · rename_i heq
        cases hget : headers.get? named with
        | none => trivial
        | some previous =>
            obtain ⟨hmem, hat⟩ := Window.get?_eq_some_iff.mp hget
            by_cases hbroken : previous.generator ≠ generator ∨ named ≤ previous.previouslyForged
            · simp only [if_pos hbroken]
              exact hnamed
            · simp only [if_neg hbroken]
              simp only [not_or, not_not, UInt64.not_le, UInt64.lt_iff_toNat_lt] at hbroken
              obtain ⟨hgenerator, hlt⟩ := hbroken
              have hprevious : low ≤ previous.previouslyForged.toNat :=
                hclosed previous hmem hgenerator (hat ▸ hnamed) (hat ▸ hlt)
              exact ih hprevious (by omega)
      · exact ih hnamed (by omega)

theorem scan_eq_complete (Named : Height → Prop)
    (hnames : ∀ k, Named k → 0 < k.toNat → lowest ≤ k.toNat → ∃ previous,
      headers.get? k = some previous ∧ previous.generator = generator ∧
        previous.previouslyForged < k ∧ Named previous.previouslyForged)
    {height : Nat} {named : Height} (hnamed : Named named) :
    scan headers generator lowest height named = .complete := by
  induction height generalizing named with
  | zero => rfl
  | succ height ih =>
      unfold scan
      by_cases hlow : height + 1 < lowest
      · rw [if_pos hlow]
      · rw [if_neg hlow]
        by_cases heq : named.toNat = height + 1
        · obtain ⟨previous, hget, hgenerator, hlt, hprevious⟩ :=
            hnames named hnamed (by omega) (by omega)
          have hlower : ¬ named ≤ previous.previouslyForged := UInt64.not_le.mpr hlt
          simp only [if_pos heq, hget, hgenerator, hlower, ne_eq, not_true_eq_false, or_self,
            if_false]
          exact ih hprevious
        · rw [if_neg heq]
          exact ih hnamed

theorem scan_congr_of_le {w v : Window} {height : Nat} {named : Height}
    (hsame : ∀ k : Height, lowest ≤ k.toNat → k.toNat ≤ height → w.get? k = v.get? k) :
    scan w generator lowest height named = scan v generator lowest height named := by
  induction height generalizing named with
  | zero => rfl
  | succ height ih =>
      have hlower : ∀ named, scan w generator lowest height named =
          scan v generator lowest height named :=
        fun named => ih fun k hlow hle => hsame k hlow (Nat.le_succ_of_le hle)
      unfold scan
      by_cases hlow : height + 1 < lowest
      · rw [if_pos hlow, if_pos hlow]
      · rw [if_neg hlow, if_neg hlow]
        by_cases hnamed : named.toNat = height + 1
        · rw [if_pos hnamed, if_pos hnamed, hsame named (by omega) (by omega)]
          cases v.get? named with
          | none => rfl
          | some previous => simp only [hlower]
        · rw [if_neg hnamed, if_neg hnamed, hlower]

theorem scan_congr {w v : Window} {height : Nat} {named : Height}
    (hsame : ∀ k : Height, lowest ≤ k.toNat → w.get? k = v.get? k) :
    scan w generator lowest height named = scan v generator lowest height named :=
  scan_congr_of_le fun k hlow _ => hsame k hlow

end Trail

namespace Header

variable {header : Header} {reach : Word}

theorem toNat_below (height : Height) (delta : Word) :
    (height.below delta).toNat = height.toNat - delta.toNat := Word.toNat_satSub height delta

theorem toNat_lowestNamed : (header.lowestNamed reach).toNat =
    max (header.height.toNat - reach.toNat) 1 := by
  rw [lowestNamed, Word.toNat_max, toNat_below]
  rfl

theorem trail_congr {w v : Window}
    (hsame : ∀ k : Height, header.height.toNat - reach.toNat ≤ k.toNat → w.get? k = v.get? k) :
    header.trail reach w = header.trail reach v := by
  refine Trail.scan_congr fun k hk => hsame k ?_
  rw [toNat_lowestNamed] at hk
  omega

theorem trail_congr_of_lt {w v : Window} (hreach : 0 < reach.toNat)
    (hforged : header.previouslyForged.toNat < header.height.toNat)
    (hsame : ∀ k : Height, header.height.toNat - reach.toNat ≤ k.toNat →
      k.toNat < header.height.toNat → w.get? k = v.get? k) :
    header.trail reach w = header.trail reach v := by
  refine Trail.scan_congr_of_le fun k hlow hle => ?_
  rw [toNat_lowestNamed] at hlow
  rw [Word.toNat_max, toNat_below] at hle
  exact hsame k (by omega) (by omega)

theorem precommitFloor?_le {headers : Window} {floor h : Height}
    (hmissing : ∀ missing, header.trail reach headers ≠ .missing missing)
    (hfloor : header.precommitFloor? reach (header.trail reach headers) = some floor)
    (hlowest : header.height.toNat - reach.toNat ≤ h.toNat)
    (hacknowledged : header.previouslyForged.toNat < h.toNat) : floor.toNat ≤ h.toNat := by
  cases htrail : header.trail reach headers with
  | missing height => exact absurd htrail (hmissing height)
  | broken height =>
      rw [htrail] at hfloor
      have hle := Trail.broken_le_named htrail
      have hnext := Word.succ?_eq_some_iff.mp hfloor
      omega
  | complete =>
      rw [htrail] at hfloor
      obtain rfl := Option.some.inj hfloor
      rw [toNat_lowestNamed]
      omega

theorem precommitFloor?_isSome {headers : Window}
    (hforged : header.previouslyForged.toNat < header.height.toNat) :
    ∃ floor, header.precommitFloor? reach (header.trail reach headers) = some floor := by
  cases htrail : header.trail reach headers with
  | missing height => exact ⟨_, rfl⟩
  | complete => exact ⟨_, rfl⟩
  | broken height =>
      have hle := Trail.broken_le_named htrail
      have hmax := Word.toNat_le header.height
      cases hnext : height.next? with
      | some floor => exact ⟨floor, hnext⟩
      | none =>
          have := Word.succ?_eq_none_iff.mp hnext
          omega

theorem lt_precommitFloor {headers : Window} {low : Nat} {floor : Height} (hlow : 0 < low)
    (hreach : header.height.toNat - reach.toNat ≤ low)
    (hnamed : low ≤ header.previouslyForged.toNat)
    (hforged : header.previouslyForged.toNat < header.height.toNat)
    (hclosed : ∀ h ∈ headers.headers, h.generator = header.generator → low ≤ h.height.toNat →
      h.previouslyForged.toNat < h.height.toNat → low ≤ h.previouslyForged.toNat)
    (hfloor : header.precommitFloor? reach (header.trail reach headers) = some floor) :
    low < floor.toNat := by
  have hleaves : (header.trail reach headers).LeavesAbove low := by
    apply Trail.scan_leavesAbove hlow _ hclosed hnamed
    · rw [Word.toNat_max]
      exact Nat.le_max_left _ _
    · rw [toNat_lowestNamed]
      omega
  cases htrail : header.trail reach headers with
  | missing height =>
      rw [htrail] at hfloor
      obtain rfl := Option.some.inj hfloor
      omega
  | broken height =>
      rw [htrail] at hfloor hleaves
      have hnext := Word.succ?_eq_some_iff.mp hfloor
      have hle : low ≤ height.toNat := hleaves
      omega
  | complete =>
      rw [htrail] at hleaves
      exact hleaves.elim

end Header

end FinalityGadget
