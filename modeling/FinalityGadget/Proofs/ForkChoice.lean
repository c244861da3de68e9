import FinalityGadget.ForkChoice
import FinalityGadget.Proofs.Slot
import Mathlib.Data.List.Chain

/-!
# The fork choice settles

A block only takes the place of the tip if it ranks above it: by its prevoted height, then by its
height, then by the smaller id. Ranks never fall, so no tip returns, at whatever times the blocks
arrive. Of two blocks that compete for a place, the same one wins on every node that receives both
in time.
-/

namespace FinalityGadget

/-- Whether the tip is given up for the block. -/
def ForkStatus.replacesTip : ForkStatus → Bool
  | .tieBreak => true
  | .differentChain => true
  | _ => false

namespace Header

/-- Orders headers by the weight of their chains. Of two that weigh the same, the one with the
smaller id comes last. -/
def compareRank : Header → Header → Ordering :=
  compareLex (compareOn prevoted) <| compareLex (compareOn height) fun a b => compareOn id b a

instance : Std.TransCmp compareRank :=
  inferInstanceAs (Std.TransCmp (compareLex (compareOn prevoted) _))

variable {candidate tip a b : Header} {context : SlotContext}

theorem compareRank_of_winsTie (hwins : candidate.winsTie tip context = true) :
    compareRank tip candidate = .lt := by
  unfold winsTie at hwins
  obtain ⟨hheight, -, hprevoted, -, -, hid⟩ := decide_eq_true_iff.mp hwins
  simp [compareRank, compareLex, compareOn, hheight, hprevoted, hid]

theorem compareRank_of_outweighs (houtweighs : candidate.outweighs tip = true) :
    compareRank tip candidate = .lt := by
  unfold outweighs at houtweighs
  rcases decide_eq_true_iff.mp houtweighs with hprevoted | ⟨hprevoted, hheight⟩
  · simp [compareRank, compareLex, compareOn, Std.compare_eq_lt.mpr hprevoted]
  · simp [compareRank, compareLex, compareOn, hprevoted, Std.compare_eq_lt.mpr hheight]

theorem compareRank_of_replacesTip
    (hreplaces : (forkChoice candidate tip context).replacesTip = true) :
    compareRank tip candidate = .lt := by
  unfold forkChoice at hreplaces
  split at hreplaces
  · simp [ForkStatus.replacesTip] at hreplaces
  · split at hreplaces
    · simp [ForkStatus.replacesTip] at hreplaces
    · split at hreplaces
      · simp [ForkStatus.replacesTip] at hreplaces
      · split at hreplaces
        · rename_i hwins
          exact compareRank_of_winsTie hwins
        · split at hreplaces
          · rename_i houtweighs
            exact compareRank_of_outweighs houtweighs
          · simp [ForkStatus.replacesTip] at hreplaces

/-! ## Histories of the tip -/

/-- The tips of a node in the order in which it had them: each takes the place of the one before,
as the fork choice finds at the time at which it is received. -/
def IsTipHistory (tips : List Header) : Prop :=
  tips.IsChain fun tip next => ∃ context, (forkChoice next tip context).replacesTip = true

theorem IsTipHistory.pairwise {tips : List Header} (hhistory : IsTipHistory tips) :
    tips.Pairwise fun earlier later => compareRank earlier later = .lt := by
  have htrans : Trans (fun a b => compareRank a b = .lt) (fun a b => compareRank a b = .lt)
      (fun a b => compareRank a b = .lt) := ⟨Std.TransCmp.lt_trans⟩
  rw [← List.isChain_iff_pairwise]
  refine hhistory.imp fun tip next hnext => ?_
  obtain ⟨context, hreplaces⟩ := hnext
  exact compareRank_of_replacesTip hreplaces

/-! ## Competing blocks -/

/-- Two blocks of different generators for the same place in a chain. -/
structure Competes (a b : Header) : Prop where
  height : a.height = b.height
  previous : a.previous = b.previous
  prevoted : a.prevoted = b.prevoted
  generator : a.generator ≠ b.generator
  id : a.id ≠ b.id

theorem Competes.symm (h : a.Competes b) : b.Competes a :=
  ⟨h.height.symm, h.previous.symm, h.prevoted.symm, h.generator.symm, h.id.symm⟩

/-- A block is received from the start of the slot of its timestamp on, and before the next slot
starts. A timestamp before genesis belongs to the first slot. -/
def ArrivesInTime (header : Header) (context : SlotContext) : Prop :=
  let blockTime := context.slots.blockTime.toNat
  let start := (header.timestamp.toNat - context.slots.genesis.toNat) / blockTime * blockTime
  context.slots.genesis.toNat + start ≤ context.receivedAt.toNat ∧
    context.receivedAt.toNat < context.slots.genesis.toNat + start + blockTime

theorem arrivesInTime_iff {header : Header} :
    header.ArrivesInTime context ↔
      context.receivedAt.toNat ∈ context.slots.times
        (context.slots.number header.timestamp).toNat := by
  rw [Slots.times, Set.mem_Ico, Slots.toNat_number, Nat.succ_mul, ← Nat.add_assoc]
  rfl

theorem isWithin_of_arrivesInTime {header : Header} (h : header.ArrivesInTime context) :
    context.slots.isWithin (context.slots.number header.timestamp) context.receivedAt = true :=
  Slots.isWithin_iff.mpr (arrivesInTime_iff.mp h)

theorem winsTie_iff :
    candidate.winsTie tip context = true ↔
      candidate.Competes tip ∧ compare candidate.id tip.id = .lt ∧
        candidate.ArrivesInTime context := by
  rw [winsTie, decide_eq_true_iff, Slots.isWithin_iff, ← arrivesInTime_iff]
  constructor
  · rintro ⟨hheight, hprevious, hprevoted, hgenerator, htime, hid⟩
    refine ⟨⟨hheight, hprevious, hprevoted, hgenerator, fun heq => ?_⟩, hid, htime⟩
    simp [heq] at hid
  · rintro ⟨h, hid, htime⟩
    exact ⟨h.height, h.previous, h.prevoted, h.generator, htime, hid⟩

theorem Competes.forkChoice_eq (h : candidate.Competes tip)
    (htime : candidate.ArrivesInTime context) :
    forkChoice candidate tip context =
      if compare candidate.id tip.id = .lt then .tieBreak else .discard := by
  have hextends : candidate.extendsTip tip = false := by
    rw [extendsTip, decide_eq_false_iff_not]
    rintro ⟨-, hnext⟩
    have hsucc := Word.succ?_eq_some_iff.mp hnext
    rw [h.height] at hsucc
    omega
  have hdouble : candidate.isDoubleForging tip = false := by
    rw [isDoubleForging, decide_eq_false_iff_not]
    exact fun hsame => h.generator hsame.2
  have hwins : candidate.winsTie tip context = decide (compare candidate.id tip.id = .lt) := by
    simp [winsTie, h.height, h.previous, h.prevoted, h.generator, isWithin_of_arrivesInTime htime]
  have houtweighs : candidate.outweighs tip = false := by
    simp [outweighs, h.height, h.prevoted]
  simp only [forkChoice, hextends, h.id, hdouble, hwins, houtweighs, decide_eq_true_eq, if_false,
    Bool.false_eq_true]

theorem forkChoice_eq_tieBreak_iff :
    forkChoice candidate tip context = .tieBreak ↔
      candidate.Competes tip ∧ compare candidate.id tip.id = .lt ∧
        candidate.ArrivesInTime context := by
  constructor
  · intro htie
    rw [← winsTie_iff]
    by_contra hnot
    unfold forkChoice at htie
    split_ifs at htie
  · rintro ⟨h, hid, htime⟩
    rw [h.forkChoice_eq htime, if_pos hid]

end Header

/-- No node returns to a tip that it has given up, at whatever times it receives the blocks. Of
two blocks that compete for a place, the one with the smaller id replaces the other and is not
replaced by it, provided that each arrives in time where it is received last. -/
theorem forkChoice_settles :
    (∀ tips, Header.IsTipHistory tips → tips.Nodup ∧ tips.Pairwise fun earlier later =>
      ∀ context, (forkChoice earlier later context).replacesTip = false) ∧
    ∀ (a b : Header) (contextOfA contextOfB : SlotContext), a.Competes b →
      a.ArrivesInTime contextOfA → b.ArrivesInTime contextOfB →
      compare a.id b.id = .lt ∧ forkChoice a b contextOfA = .tieBreak ∧
          forkChoice b a contextOfB = .discard ∨
        compare b.id a.id = .lt ∧ forkChoice b a contextOfB = .tieBreak ∧
          forkChoice a b contextOfA = .discard := by
  refine ⟨fun tips hhistory => ⟨?_, ?_⟩, fun a b contextOfA contextOfB h hA hB => ?_⟩
  · refine hhistory.pairwise.imp fun {earlier later} hlt heq => ?_
    have hself : Header.compareRank later later = .eq := Std.ReflCmp.compare_self
    rw [heq, hself] at hlt
    simp at hlt
  · refine hhistory.pairwise.imp fun {earlier later} hlt context => ?_
    by_contra hreplaces
    have hgt := Header.compareRank_of_replacesTip (Bool.not_eq_false _ ▸ hreplaces)
    exact Std.OrientedCmp.not_lt_of_lt hlt hgt
  · have hswap : compare b.id a.id = (compare a.id b.id).swap := Std.OrientedOrd.eq_swap
    rw [h.forkChoice_eq hA, h.symm.forkChoice_eq hB, hswap]
    cases horder : compare a.id b.id with
    | lt => simp
    | gt => simp
    | eq => exact absurd (Std.LawfulEqCmp.compare_eq_iff_eq.mp horder) h.id

/-- A tie is won by the smaller id, and the winner gives way to a higher block. -/
theorem forkChoice_settles_of_three :
    let slots : Slots := ⟨5, 10, by decide⟩
    let a : Header := ⟨7, .ofNat 9, .ofNat 6, .ofNat 1, 21, 0, 0, 4⟩
    let b : Header := ⟨7, .ofNat 8, .ofNat 6, .ofNat 2, 24, 0, 0, 4⟩
    let c : Header := ⟨8, .ofNat 10, .ofNat 9, .ofNat 3, 30, 0, 0, 4⟩
    Header.IsTipHistory [a, b, c] ∧ a.Competes b ∧ a.ArrivesInTime ⟨slots, 23⟩ ∧
      b.ArrivesInTime ⟨slots, 15⟩ ∧ [a, b, c].Nodup ∧
      (∀ context, (forkChoice a c context).replacesTip = false) ∧
      forkChoice b a ⟨slots, 15⟩ = .tieBreak ∧ forkChoice a b ⟨slots, 23⟩ = .discard := by
  intro slots a b c
  have hhistory : Header.IsTipHistory [a, b, c] := by
    refine .cons_cons ⟨⟨slots, 15⟩, by decide +kernel⟩ (.cons_cons ⟨⟨slots, 0⟩, ?_⟩ (.singleton _))
    decide +kernel
  have hcompetes : a.Competes b := by
    constructor <;> decide +kernel
  have hA : a.ArrivesInTime ⟨slots, 23⟩ := by
    unfold Header.ArrivesInTime
    decide +kernel
  have hB : b.ArrivesInTime ⟨slots, 15⟩ := by
    unfold Header.ArrivesInTime
    decide +kernel
  obtain ⟨hnodup, hpairwise⟩ := forkChoice_settles.1 [a, b, c] hhistory
  have hcompeting := forkChoice_settles.2 a b ⟨slots, 23⟩ ⟨slots, 15⟩ hcompetes hA hB
  refine ⟨hhistory, hcompetes, hA, hB, hnodup, ?_, ?_⟩
  · exact (List.pairwise_cons.mp hpairwise).1 c (by simp)
  · rcases hcompeting with ⟨hsmaller, -⟩ | ⟨-, htie, hdiscard⟩
    · exact absurd hsmaller (by decide +kernel)
    · exact ⟨htie, hdiscard⟩

end FinalityGadget
