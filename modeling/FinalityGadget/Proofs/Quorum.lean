import FinalityGadget.Finality
import Mathlib.Algebra.Group.Nat.Defs
import Mathlib.Data.Finset.BooleanAlgebra
import Mathlib.Data.Fintype.Card

/-!
# Quorums intersect

As long as twice the number of validators fits a word, a quorum is at least two thirds of them, so
two quorums share a validator outside any set of less than a third. From `2 ^ 63` validators on the
saturated product is short of the real one, and so is the quorum.
-/

namespace FinalityGadget

namespace Quorum

theorem isMet_iff {q : Quorum} {amount : Word} :
    q.isMet amount = true ↔ q.votes.toNat ≤ amount.toNat := by
  simp [isMet, UInt64.le_iff_toNat_le]

theorem toNat_votes_ofValidators (n : Word) :
    (ofValidators n).votes.toNat =
      min (min (n.toNat * 2) Word.maxNat + 2) Word.maxNat / 3 := by
  simp [ofValidators, UInt64.toNat_div]

theorem toNat_votes_of_lt {n : Word} (hn : n.toNat < 2 ^ 60) :
    (ofValidators n).votes.toNat = (2 * n.toNat + 2) / 3 := by
  rw [toNat_votes_ofValidators]
  unfold Word.maxNat
  omega

theorem votes_pos {n : Word} (hn : 0 < n) : 0 < (ofValidators n).votes.toNat := by
  have hpos : 0 < n.toNat := by simpa [UInt64.lt_iff_toNat_lt] using hn
  rw [toNat_votes_ofValidators]
  unfold Word.maxNat
  omega

theorem two_mul_le_three_mul_votes {n : Word} (hn : n.toNat < 2 ^ 63) :
    2 * n.toNat ≤ 3 * (ofValidators n).votes.toNat := by
  rw [toNat_votes_ofValidators]
  unfold Word.maxNat
  omega

/-- Two quorums share a member outside a set of less than a third. -/
theorem exists_common_of_quorums {α : Type} [DecidableEq α] {members faulty S T : Finset α}
    {n : Word} (hn : n.toNat < 2 ^ 63) (hmembers : members.card ≤ n.toNat)
    (hfaulty : 3 * faulty.card < n.toNat) (hS : S ⊆ members) (hT : T ⊆ members)
    (hSquorum : (ofValidators n).votes.toNat ≤ S.card)
    (hTquorum : (ofValidators n).votes.toNat ≤ T.card) :
    ∃ v, v ∈ S ∧ v ∈ T ∧ v ∉ faulty := by
  have hvotes := two_mul_le_three_mul_votes hn
  have hunion : (S ∪ T).card ≤ members.card := Finset.card_le_card (Finset.union_subset hS hT)
  have hcount := Finset.card_union_add_card_inter S T
  have hlt : faulty.card < (S ∩ T).card := by omega
  obtain ⟨v, hv, hvfaulty⟩ := Finset.exists_mem_notMem_of_card_lt_card hlt
  obtain ⟨hvS, hvT⟩ := Finset.mem_inter.mp hv
  exact ⟨v, hvS, hvT, hvfaulty⟩

/-- Two thirds of `n`, rounded up. -/
def IsTwoThirds (votes n : Nat) : Prop := 2 * n ≤ 3 * votes ∧ 3 * (votes - 1) < 2 * n

/-- Two sets of so many out of `n` members share at least a third of the members. -/
def SharesThird (votes n : Nat) : Prop :=
  ∀ S T : Finset (Fin n), votes ≤ S.card → votes ≤ T.card → n ≤ 3 * (S ∩ T).card

theorem sharesThird_of_two_mul_le {votes n : Nat} (hvotes : 2 * n ≤ 3 * votes) :
    SharesThird votes n := by
  intro S T hS hT
  have hcount := Finset.card_union_add_card_inter S T
  have hunion : (S ∪ T).card ≤ n := (S ∪ T).card_le_univ.trans_eq (Fintype.card_fin n)
  omega

/-- A set of `votes` members and one that holds as many of the others as it can share no more than
they have to. -/
theorem two_mul_le_of_sharesThird {votes n : Nat} (hle : votes ≤ n)
    (hshares : SharesThird votes n) : 2 * n ≤ 3 * votes := by
  obtain ⟨S, -, hS⟩ := Finset.exists_subset_card_eq (hle.trans_eq (Finset.card_fin n).symm)
  have hcompl : Sᶜ.card = n - votes := by rw [Finset.card_compl, Fintype.card_fin, hS]
  rcases Nat.le_total (n - votes) votes with hsmall | hlarge
  · obtain ⟨T, hST, -, hT⟩ := Finset.exists_subsuperset_card_eq (Finset.subset_univ Sᶜ)
      (hcompl.trans_le hsmall) (hle.trans_eq (Finset.card_fin n).symm)
    have hunion : S ∪ T = Finset.univ := by
      apply Finset.eq_univ_of_forall
      intro v
      by_cases hv : v ∈ S
      · exact Finset.mem_union_left T hv
      · exact Finset.mem_union_right S (hST (Finset.mem_compl.mpr hv))
    have hcount := Finset.card_union_add_card_inter S T
    rw [hunion, Finset.card_fin] at hcount
    have := hshares S T hS.ge hT.ge
    omega
  · obtain ⟨T, hTS, hT⟩ := Finset.exists_subset_card_eq (hlarge.trans_eq hcompl.symm)
    have hinter : S ∩ T = ∅ := by
      rw [← Finset.disjoint_iff_inter_eq_empty]
      exact Finset.disjoint_of_subset_right hTS disjoint_compl_right
    have := hshares S T hS.ge hT.ge
    rw [hinter, Finset.card_empty] at this
    omega

theorem sharesThird_iff {votes n : Nat} (hle : votes ≤ n) :
    SharesThird votes n ↔ 2 * n ≤ 3 * votes :=
  ⟨two_mul_le_of_sharesThird hle, sharesThird_of_two_mul_le⟩

theorem toNat_votes_eq_min (n : Word) :
    (ofValidators n).votes.toNat = min ((2 * n.toNat + 2) / 3) (Word.maxNat / 3) := by
  rw [toNat_votes_ofValidators]
  unfold Word.maxNat
  omega

theorem votes_le {n : Word} (hn : 0 < n) : (ofValidators n).votes.toNat ≤ n.toNat := by
  have hpos : 0 < n.toNat := by simpa [UInt64.lt_iff_toNat_lt] using hn
  rw [toNat_votes_eq_min]
  omega

theorem one_lt_votes {n : Word} (hn : 2 ≤ n.toNat) : 1 < (ofValidators n).votes.toNat := by
  have hmax : Word.maxNat / 3 = 6148914691236517205 := rfl
  rw [toNat_votes_eq_min, hmax]
  omega

theorem isTwoThirds_votes_iff {n : Word} (hn : 0 < n) :
    IsTwoThirds (ofValidators n).votes.toNat n.toNat ↔ n.toNat < 2 ^ 63 := by
  have hpos : 0 < n.toNat := by simpa [UInt64.lt_iff_toNat_lt] using hn
  have hmax : Word.maxNat / 3 = 6148914691236517205 := rfl
  rw [IsTwoThirds, toNat_votes_eq_min, hmax]
  omega

theorem sharesThird_votes_iff {n : Word} (hn : 0 < n) :
    SharesThird (ofValidators n).votes.toNat n.toNat ↔ n.toNat < 2 ^ 63 := by
  rw [sharesThird_iff (votes_le hn)]
  constructor
  · intro hvotes
    have hmin := toNat_votes_eq_min n
    have hmax : Word.maxNat / 3 = 6148914691236517205 := rfl
    omega
  · exact two_mul_le_three_mul_votes

end Quorum

namespace Finality

theorem start_eq_ok_iff {n : Word} {genesis : Height} {f : Finality} :
    start n genesis = .ok f ↔ ∃ hn : 0 < n, f = ⟨n, hn, genesis, genesis, genesis⟩ := by
  unfold start
  split <;> simp_all [eq_comm]

/-- The quorum of every number of validators that a rule can be started with: at most all of them,
and exactly two thirds, with the shared third of two quorums that follows, as long as twice their
number fits a word. From there on it stays at a third of the largest word. -/
theorem quorum_exact {n : Word} {genesis : Height} {f : Finality}
    (hstart : start n genesis = .ok f) :
    f.quorum.votes.toNat = min ((2 * n.toNat + 2) / 3) (Word.maxNat / 3) ∧
      0 < f.quorum.votes.toNat ∧ f.quorum.votes.toNat ≤ n.toNat ∧
      (Quorum.IsTwoThirds f.quorum.votes.toNat n.toNat ↔ n.toNat < 2 ^ 63) ∧
      (Quorum.SharesThird f.quorum.votes.toNat n.toNat ↔ n.toNat < 2 ^ 63) := by
  obtain ⟨hn, rfl⟩ := start_eq_ok_iff.mp hstart
  exact ⟨Quorum.toNat_votes_eq_min n, Quorum.votes_pos hn, Quorum.votes_le hn,
    Quorum.isTwoThirds_votes_iff hn, Quorum.sharesThird_votes_iff hn⟩

/-- The first number of validators whose quorum is one vote short: two quorums may then share less
than a third of them. -/
theorem quorum_exact_of_half :
    ∃ f, start 0x8000000000000000 0 = .ok f ∧ f.quorum.votes = 6148914691236517205 ∧
      ¬ Quorum.IsTwoThirds f.quorum.votes.toNat 0x8000000000000000 ∧
      ¬ Quorum.SharesThird f.quorum.votes.toNat 0x8000000000000000 := by
  obtain ⟨f, hstart⟩ : ∃ f, start 0x8000000000000000 0 = .ok f := ⟨_, rfl⟩
  obtain ⟨hvotes, -, -, hexact, hshares⟩ := quorum_exact hstart
  refine ⟨f, hstart, ?_, mt hexact.mp (by decide), mt hshares.mp (by decide)⟩
  rw [← UInt64.toNat_inj, hvotes]
  rfl

end Finality

end FinalityGadget
