import FinalityGadget.Finality.Ballot
import FinalityGadget.Proofs.Height
import FinalityGadget.Proofs.Ledger

/-!
# Casting a ballot

Prevotes and precommits are counted in the same way, so what a ballot changes in the ledger is said
once for both: every tally grows by the number of votes that the ballot holds for its height, and
the vote heights of the generator rise to the last heights of the ballot.
-/

namespace FinalityGadget

inductive VoteKind
  | prevote
  | precommit
deriving DecidableEq

def Tally.votes (t : Tally) : VoteKind → Word
  | .prevote => t.prevotes
  | .precommit => t.precommits

def VoteHeights.highest (v : VoteHeights) : VoteKind → Height
  | .prevote => v.prevoted
  | .precommit => v.precommitted

def Ballot.votes (b : Ballot) : VoteKind → List Height
  | .prevote => b.prevotes
  | .precommit => b.precommits

@[simp] theorem Tally.votes_zero (kind : VoteKind) : (⟨0, 0⟩ : Tally).votes kind = 0 := by
  cases kind <;> rfl

theorem VoteHeights.ext_highest {v w : VoteHeights}
    (h : ∀ kind, v.highest kind = w.highest kind) : v = w := by
  obtain ⟨prevoted, precommitted⟩ := v
  obtain ⟨prevoted', precommitted'⟩ := w
  have hprevoted : prevoted = prevoted' := h .prevote
  have hprecommitted : precommitted = precommitted' := h .precommit
  rw [hprevoted, hprecommitted]

theorem Ballot.highest_raise (b : Ballot) (v : VoteHeights) (kind : VoteKind) :
    (b.raise v).highest kind = (b.votes kind).getLast?.getD (v.highest kind) := by
  cases kind <;> rfl

namespace Ledger

/-- Counts a vote of a kind for a height. -/
def vote? : VoteKind → Ledger → Height → Option Ledger
  | .prevote => prevote?
  | .precommit => precommit?

/-- The ledger `after` holds the votes of `before` and, for each of the listed heights, one more
vote of a kind. -/
structure Gains (kind : VoteKind) (before : Ledger) (heights : List Height) (after : Ledger) :
    Prop where
  voters : after.voters = before.voters
  votes : ∀ h, ((after.tally h).votes kind).toNat =
    ((before.tally h).votes kind).toNat + heights.count h
  others : ∀ other, other ≠ kind → ∀ h, (after.tally h).votes other = (before.tally h).votes other
  mem_iff : ∀ h, h ∈ after.tallies ↔ h ∈ before.tallies ∨ h ∈ heights

variable {kind : VoteKind}

theorem Gains.refl (l : Ledger) : Gains kind l [] l where
  voters := rfl
  votes h := by simp
  others _ _ _ := rfl
  mem_iff h := by simp

theorem Gains.trans {l₁ l₂ l₃ : Ledger} {heights rest : List Height}
    (h₁ : Gains kind l₁ heights l₂) (h₂ : Gains kind l₂ rest l₃) :
    Gains kind l₁ (heights ++ rest) l₃ where
  voters := h₂.voters.trans h₁.voters
  votes h := by rw [h₂.votes, h₁.votes, List.count_append, Nat.add_assoc]
  others other hne h := (h₂.others other hne h).trans (h₁.others other hne h)
  mem_iff h := by rw [h₂.mem_iff, h₁.mem_iff, List.mem_append, or_assoc]

theorem vote?_eq_some {l after : Ledger} {height : Height}
    (hvote : l.vote? kind height = some after) :
    ∃ t : Tally, after = l.setTally height t ∧
      (t.votes kind).toNat = ((l.tally height).votes kind).toNat + 1 ∧
      ∀ other, other ≠ kind → t.votes other = (l.tally height).votes other := by
  cases kind with
  | prevote =>
      obtain ⟨n, hn, rfl⟩ := Option.map_eq_some_iff.mp hvote
      refine ⟨_, rfl, Word.succ?_eq_some_iff.mp hn, fun other hne => ?_⟩
      cases other with
      | prevote => exact absurd rfl hne
      | precommit => rfl
  | precommit =>
      obtain ⟨n, hn, rfl⟩ := Option.map_eq_some_iff.mp hvote
      refine ⟨_, rfl, Word.succ?_eq_some_iff.mp hn, fun other hne => ?_⟩
      cases other with
      | prevote => rfl
      | precommit => exact absurd rfl hne

theorem gains_of_vote? {l after : Ledger} {height : Height}
    (hvote : l.vote? kind height = some after) : Gains kind l [height] after := by
  obtain ⟨t, rfl, hvotes, hothers⟩ := vote?_eq_some hvote
  refine ⟨rfl, fun h => ?_, fun other hne h => ?_, fun h => ?_⟩
  · rw [tally_setTally]
    by_cases heq : height = h
    · subst heq
      simp [hvotes]
    · simp [heq]
  · rw [tally_setTally]
    by_cases heq : height = h
    · subst heq
      simp [hothers other hne]
    · simp [heq]
  · rw [mem_setTally, List.mem_singleton, or_comm, eq_comm]

theorem gains_of_foldlM {heights : List Height} {l after : Ledger}
    (hfold : heights.foldlM (vote? kind) l = some after) : Gains kind l heights after := by
  induction heights generalizing l with
  | nil =>
      obtain rfl := Option.some.inj hfold
      exact Gains.refl l
  | cons height rest ih =>
      obtain ⟨next, hvote, hrest⟩ := Option.bind_eq_some_iff.mp hfold
      exact (gains_of_vote? hvote).trans (ih hrest)

theorem vote?_isSome {l : Ledger} {height : Height}
    (hroom : ((l.tally height).votes kind).toNat < Word.maxNat) :
    ∃ after, l.vote? kind height = some after := by
  have hsucc : ∀ a : Word, a.toNat < Word.maxNat → ∃ b, Word.succ? a = some b :=
    fun a ha => ⟨a + 1, if_pos ha⟩
  cases kind with
  | prevote =>
      obtain ⟨n, hn⟩ := hsucc _ hroom
      exact ⟨_, Option.map_eq_some_iff.mpr ⟨n, hn, rfl⟩⟩
  | precommit =>
      obtain ⟨n, hn⟩ := hsucc _ hroom
      exact ⟨_, Option.map_eq_some_iff.mpr ⟨n, hn, rfl⟩⟩

theorem foldlM_vote?_isSome {heights : List Height} {l : Ledger}
    (hroom : ∀ h ∈ heights, ((l.tally h).votes kind).toNat + heights.count h ≤ Word.maxNat) :
    ∃ after, heights.foldlM (vote? kind) l = some after := by
  induction heights generalizing l with
  | nil => exact ⟨l, rfl⟩
  | cons height rest ih =>
      have hhead := hroom height List.mem_cons_self
      rw [List.count_cons_self] at hhead
      have hvote : ∃ next, l.vote? kind height = some next := vote?_isSome (by omega)
      obtain ⟨next, hvote⟩ := hvote
      have hgains := gains_of_vote? hvote
      have hrest : ∀ h ∈ rest,
          ((next.tally h).votes kind).toNat + rest.count h ≤ Word.maxNat := by
        intro h hh
        have := hroom h (List.mem_cons_of_mem _ hh)
        rw [hgains.votes]
        rw [List.count_cons] at this
        simp only [List.count_cons, List.count_nil]
        omega
      obtain ⟨after, hafter⟩ := ih hrest
      exact ⟨after, Option.bind_eq_some_iff.mpr ⟨next, hvote, hafter⟩⟩

/-! ## Whole ballots -/

/-- The ledger `after` holds what `before` holds and the ballot of a generator. -/
structure IsCast (before : Ledger) (generator : Address) (ballot : Ballot) (after : Ledger) :
    Prop where
  votes : ∀ kind h, ((after.tally h).votes kind).toNat =
    ((before.tally h).votes kind).toNat + (ballot.votes kind).count h
  mem_iff : ∀ h, h ∈ after.tallies ↔ h ∈ before.tallies ∨ ∃ kind, h ∈ ballot.votes kind
  voters : after.voters =
    before.voters.insert generator (ballot.raise (before.votesOf generator))

theorem isCast_cast? {before after : Ledger} {generator : Address} {ballot : Ballot}
    (hcast : before.cast? generator ballot = some after) :
    before.IsCast generator ballot after := by
  obtain ⟨precommitted, hprecommits, hrest⟩ := Option.bind_eq_some_iff.mp hcast
  obtain ⟨counted, hprevotes, hlast⟩ := Option.bind_eq_some_iff.mp hrest
  obtain rfl := Option.some.inj hlast
  have hfirst : Gains .precommit before ballot.precommits precommitted :=
    gains_of_foldlM hprecommits
  have hsecond : Gains .prevote precommitted ballot.prevotes counted :=
    gains_of_foldlM hprevotes
  refine ⟨fun kind h => ?_, fun h => ?_, ?_⟩
  · rw [tally_setVotes]
    cases kind with
    | prevote =>
        rw [hsecond.votes, hfirst.others .prevote (by simp)]
        rfl
    | precommit =>
        rw [hsecond.others .precommit (by simp), hfirst.votes]
        rfl
  · have hmem : h ∈ (counted.setVotes generator
        (ballot.raise (before.votesOf generator))).tallies ↔ h ∈ counted.tallies := Iff.rfl
    rw [hmem, hsecond.mem_iff, hfirst.mem_iff, or_assoc]
    refine or_congr_right ⟨?_, ?_⟩
    · rintro (hh | hh)
      · exact ⟨.precommit, hh⟩
      · exact ⟨.prevote, hh⟩
    · rintro ⟨kind, hh⟩
      cases kind with
      | prevote => exact .inr hh
      | precommit => exact .inl hh
  · show counted.voters.insert _ _ = _
    rw [hsecond.voters, hfirst.voters]

theorem cast?_isSome {l : Ledger} {generator : Address} {ballot : Ballot}
    (hroom : ∀ kind, ∀ h ∈ ballot.votes kind,
      ((l.tally h).votes kind).toNat + (ballot.votes kind).count h ≤ Word.maxNat) :
    ∃ after, l.cast? generator ballot = some after := by
  obtain ⟨precommitted, hprecommits⟩ := foldlM_vote?_isSome (hroom .precommit)
  have hgains := gains_of_foldlM hprecommits
  have hprevotesRoom : ∀ h ∈ ballot.votes .prevote,
      ((precommitted.tally h).votes .prevote).toNat + (ballot.votes .prevote).count h ≤
        Word.maxNat := by
    intro h hh
    rw [hgains.others .prevote (by simp)]
    exact hroom .prevote h hh
  obtain ⟨counted, hprevotes⟩ := foldlM_vote?_isSome hprevotesRoom
  refine ⟨counted.setVotes generator (ballot.raise (l.votesOf generator)), ?_⟩
  refine Option.bind_eq_some_iff.mpr ⟨precommitted, hprecommits, ?_⟩
  exact Option.bind_eq_some_iff.mpr ⟨counted, hprevotes, rfl⟩

namespace IsCast

variable {before after : Ledger} {generator : Address} {ballot : Ballot}

theorem votesOf (h : before.IsCast generator ballot after) (a : Address) :
    after.votesOf a =
      if generator = a then ballot.raise (before.votesOf generator) else before.votesOf a := by
  have hset : after.votesOf a =
      (before.setVotes generator (ballot.raise (before.votesOf generator))).votesOf a := by
    unfold Ledger.votesOf setVotes
    rw [h.voters]
    rfl
  rw [hset, votesOf_setVotes]

theorem mem_voters_iff (h : before.IsCast generator ballot after) (a : Address) :
    a ∈ after.voters ↔ generator = a ∨ a ∈ before.voters := by
  rw [h.voters]
  simp [Std.ExtTreeMap.mem_insert]

end IsCast

/-! ## Added votes -/

/-- The ledger `after` holds the heights and the tallies of `before` and the votes listed. -/
structure Adds (before : Ledger) (heights : VoteKind → List Height) (after : Ledger) : Prop where
  votes : ∀ kind h, ((after.tally h).votes kind).toNat =
    ((before.tally h).votes kind).toNat + (heights kind).count h
  mem_iff : ∀ h, h ∈ after.tallies ↔ h ∈ before.tallies ∨ ∃ kind, h ∈ heights kind

theorem Adds.refl (l : Ledger) : l.Adds (fun _ => []) l where
  votes kind h := by simp
  mem_iff h := by simp

theorem IsCast.adds {before after : Ledger} {generator : Address} {ballot : Ballot}
    (h : before.IsCast generator ballot after) : before.Adds ballot.votes after :=
  ⟨h.votes, h.mem_iff⟩

end Ledger

end FinalityGadget
