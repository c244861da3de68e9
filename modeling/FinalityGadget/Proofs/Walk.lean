import FinalityGadget.Proofs.Trail

/-!
# The walk down a forging history

A history is followed by a loop over words. It starts from the height that the header names and
looks at one height after the other, down to the lowest one within reach; where it comes to the
height that the history named last, the header retained there names the next. A turn of the loop
does what one step of `Trail.scan` does. It lowers the height by one and is taken only from the
lowest height on, which is no genesis height, so the loop ends and no word passes either end of the
range on the way.
-/

namespace FinalityGadget

/-- Where a walk stands: the height that it looks at, and the one that the history named last. -/
structure Walk where
  height : Height
  named : Height

/-- How a turn of a walk ends. -/
inductive Walk.Turn
  | next (walk : Walk)
  /-- The walk is over, with the lowest height to precommit unless that passes the largest word. -/
  | done (floor : Option Height)

namespace Walk

section Loop

variable (header : Header) (reach : Word) (headers : Window)

def start : Walk where
  height := max header.previouslyForged (header.height.below reach)
  named := header.previouslyForged

def turn (walk : Walk) : Turn :=
  if walk.height < header.lowestNamed reach then
    .done (walk.height.next?.map fun above => max above (header.lowestNamed reach))
  else if walk.height = walk.named then
    match headers.get? walk.height with
    | none => .done (some header.height)
    | some previous =>
      if previous.generator ≠ header.generator ∨ walk.height ≤ previous.previouslyForged then
        .done walk.height.next?
      else .next ⟨walk.height.below 1, previous.previouslyForged⟩
  else .next ⟨walk.height.below 1, walk.named⟩

/-- The walk is over after some turns, and no word has passed an end of the range. -/
inductive Ends : (turns : Nat) → Walk → (floor : Height) → Prop
  | done {walk : Walk} {floor : Height}
      (hdone : turn header reach headers walk = .done (some floor)) : Ends 0 walk floor
  | next {turns : Nat} {walk after : Walk} {floor : Height}
      (hnext : turn header reach headers walk = .next after) (hrest : Ends turns after floor) :
      Ends (turns + 1) walk floor

/-- Where the history leads from where a walk stands. -/
def history (walk : Walk) : Trail :=
  Trail.scan headers header.generator (header.lowestNamed reach).toNat walk.height.toNat walk.named

end Loop

variable {header : Header} {reach : Word} {headers : Window} {walk after : Walk}

/-! ## One turn -/

theorem lowestNamed_pos : 0 < (header.lowestNamed reach).toNat := by
  rw [Header.toNat_lowestNamed]
  omega

theorem history_of_lt (hlt : walk.height.toNat < (header.lowestNamed reach).toNat) :
    history header reach headers walk = .complete := by
  unfold history
  cases hheight : walk.height.toNat with
  | zero => rfl
  | succ height => rw [Trail.scan, if_pos (hheight ▸ hlt)]

theorem history_eq (hlowest : (header.lowestNamed reach).toNat ≤ walk.height.toNat) :
    history header reach headers walk =
      if walk.height = walk.named then
        match headers.get? walk.height with
        | none => .missing walk.height
        | some previous =>
          if previous.generator ≠ header.generator ∨ walk.height ≤ previous.previouslyForged then
            .broken walk.height
          else history header reach headers ⟨walk.height.below 1, previous.previouslyForged⟩
      else history header reach headers ⟨walk.height.below 1, walk.named⟩ := by
  have hpositive : 0 < (header.lowestNamed reach).toNat := lowestNamed_pos
  have hbelow : (walk.height.below 1).toNat = walk.height.toNat - 1 := Header.toNat_below _ _
  obtain ⟨height, hheight⟩ : ∃ height, walk.height.toNat = height + 1 :=
    ⟨walk.height.toNat - 1, by omega⟩
  have hstays : ¬ height + 1 < (header.lowestNamed reach).toNat := by omega
  unfold history
  rw [hbelow, hheight, Nat.add_sub_cancel, Trail.scan, if_neg hstays]
  by_cases hnamed : walk.height = walk.named
  · rw [if_pos hnamed, if_pos (hnamed ▸ hheight), hnamed]
    rw [hnamed] at hbelow hheight
    cases headers.get? walk.named with
    | none => rfl
    | some previous => simp only [hbelow, hheight, Nat.add_sub_cancel]
  · have hpassed : walk.named.toNat ≠ height + 1 :=
      fun heq => hnamed (UInt64.toNat_inj.mp (hheight.trans heq.symm))
    rw [if_neg hnamed, if_neg hpassed]

/-- A turn that is not the last one lowers the height, and the history leads to the same end. -/
theorem history_of_next (hnext : turn header reach headers walk = .next after) :
    (header.lowestNamed reach).toNat ≤ walk.height.toNat ∧
      after.height.toNat + 1 = walk.height.toNat ∧
      history header reach headers after = history header reach headers walk := by
  unfold turn at hnext
  split at hnext
  · simp at hnext
  · rename_i hlowest
    rw [UInt64.lt_iff_toNat_lt, Nat.not_lt] at hlowest
    have hpositive : 0 < (header.lowestNamed reach).toNat := lowestNamed_pos
    have hbelow : (walk.height.below 1).toNat + 1 = walk.height.toNat := by
      rw [Header.toNat_below, UInt64.toNat_one]
      omega
    rw [history_eq hlowest]
    split at hnext
    · rename_i hnamed
      rw [if_pos hnamed]
      split at hnext
      · simp at hnext
      · rename_i previous hget
        split at hnext
        · simp at hnext
        · rename_i hfollows
          obtain rfl := Turn.next.inj hnext
          simp only [if_neg hfollows]
          exact ⟨hlowest, hbelow, trivial⟩
    · rename_i hnamed
      obtain rfl := Turn.next.inj hnext
      rw [if_neg hnamed]
      exact ⟨hlowest, hbelow, rfl⟩

theorem floor_of_done (hheight : walk.height.toNat < header.height.toNat) {floor? : Option Height}
    (hdone : turn header reach headers walk = .done floor?) :
    ∃ floor, floor? = some floor ∧
      header.precommitFloor? reach (history header reach headers walk) = some floor := by
  have hfits := Word.toNat_le header.height
  obtain ⟨above, habove⟩ : ∃ above, walk.height.next? = some above := by
    cases hnext : walk.height.next? with
    | some above => exact ⟨above, rfl⟩
    | none =>
        have hfull := Word.succ?_eq_none_iff.mp hnext
        omega
  unfold turn at hdone
  rw [habove] at hdone
  split at hdone
  · -- The height above is at most the lowest one looked at.
    rename_i hlt
    rw [UInt64.lt_iff_toNat_lt] at hlt
    have habove := Word.succ?_eq_some_iff.mp habove
    have hmax : max above (header.lowestNamed reach) = header.lowestNamed reach := by
      rw [← UInt64.toNat_inj, Word.toNat_max]
      omega
    rw [history_of_lt hlt]
    refine ⟨header.lowestNamed reach, ?_, rfl⟩
    rw [← Turn.done.inj hdone, Option.map_some, hmax]
  · rename_i hlowest
    rw [UInt64.lt_iff_toNat_lt, Nat.not_lt] at hlowest
    rw [history_eq hlowest]
    split at hdone
    · rename_i hnamed
      rw [if_pos hnamed]
      split at hdone
      · rename_i hget
        exact ⟨header.height, (Turn.done.inj hdone).symm, rfl⟩
      · rename_i previous hget
        split at hdone
        · rename_i hbroken
          simp only [if_pos hbroken]
          exact ⟨above, (Turn.done.inj hdone).symm, habove⟩
        · simp at hdone
    · simp at hdone

/-! ## The whole walk -/

theorem exists_ends (reach : Word) (headers : Window)
    (hheight : walk.height.toNat < header.height.toNat) :
    ∃ turns floor, Ends header reach headers turns walk floor ∧
      turns ≤ walk.height.toNat + 1 - (header.lowestNamed reach).toNat ∧
      header.precommitFloor? reach (history header reach headers walk) = some floor := by
  induction hdistance : walk.height.toNat using Nat.strongRecOn generalizing walk with
  | ind distance ih =>
      cases hturn : turn header reach headers walk with
      | done floor? =>
          obtain ⟨floor, rfl, hfloor⟩ := floor_of_done hheight hturn
          exact ⟨0, floor, .done hturn, Nat.zero_le _, hfloor⟩
      | next after =>
          obtain ⟨hlowest, hafter, hhistory⟩ := history_of_next hturn
          obtain ⟨turns, floor, hends, hturns, hfloor⟩ :=
            ih after.height.toNat (by omega) (by omega) rfl
          rw [hhistory] at hfloor
          exact ⟨turns + 1, floor, .next hturn hends, by omega, hfloor⟩

theorem start_ends (hreach : 0 < reach.toNat)
    (hforged : header.previouslyForged.toNat < header.height.toNat) :
    ∃ turns floor, Ends header reach headers turns (start header reach) floor ∧
      turns ≤ reach.toNat ∧
      header.precommitFloor? reach (header.trail reach headers) = some floor := by
  have hstart : (start header reach).height.toNat =
      max header.previouslyForged.toNat (header.height.toNat - reach.toNat) := by
    rw [start, Word.toNat_max, Header.toNat_below]
  have hlowest : (header.lowestNamed reach).toNat = max (header.height.toNat - reach.toNat) 1 :=
    Header.toNat_lowestNamed
  have hbelow : (start header reach).height.toNat < header.height.toNat := by omega
  obtain ⟨turns, floor, hends, hturns, hfloor⟩ := exists_ends reach headers hbelow
  exact ⟨turns, floor, hends, by omega, hfloor⟩

end Walk

end FinalityGadget
