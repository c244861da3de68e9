import FinalityGadget.Proofs.Counting
import FinalityGadget.Proofs.Walk

/-!
# Forging histories, pointer by pointer

The walk down a forging history looks at one height after the other. What it finds depends on the
heights that the history names and on nothing between them: it follows the headers of one generator
from each height named to the next, and ends where no header is retained, where the header is
of another generator or names no lower height, or where the heights are out of reach.
-/

namespace FinalityGadget

/-- The heights that the history of a header names, as far as it is followed: from a height that is
at least `floor`, over the header of the same generator retained there, to the lower height which
that header names. -/
inductive Header.Names (header : Header) (headers : Window) (floor : Nat) : Nat → Height → Prop
  | first : Names header headers floor 0 header.previouslyForged
  | next {k : Nat} {p : Height} {previous : Header} (hnames : Names header headers floor k p)
      (hfloor : floor ≤ p.toNat) (hget : headers.get? p = some previous)
      (hgenerator : previous.generator = header.generator)
      (hlower : previous.previouslyForged < p) :
      Names header headers floor (k + 1) previous.previouslyForged

/-- The header at a height that a history names ends the history: it is of another generator, or it
names no lower height. -/
abbrev Header.Breaks (header previous : Header) (p : Height) : Prop :=
  previous.generator ≠ header.generator ∨ p ≤ previous.previouslyForged

namespace Walk

variable {header : Header} {reach : Word} {headers : Window} {height p : Height}

theorem history_of_named_le (hle : p.toNat ≤ height.toNat) :
    history header reach headers ⟨height, p⟩ = history header reach headers ⟨p, p⟩ := by
  induction hdistance : height.toNat using Nat.strongRecOn generalizing height with
  | ind distance ih =>
      by_cases hlowest : (header.lowestNamed reach).toNat ≤ height.toNat
      · by_cases hnamed : height = p
        · rw [hnamed]
        · have hne : height.toNat ≠ p.toNat := fun heq => hnamed (UInt64.toNat_inj.mp heq)
          have hbelow : (height.below 1).toNat = height.toNat - 1 := Header.toNat_below _ _
          rw [history_eq hlowest, if_neg hnamed]
          show history header reach headers ⟨height.below 1, p⟩ = _
          exact ih (height.below 1).toNat (by omega) (by omega) rfl
      · have hshort : height.toNat < (header.lowestNamed reach).toNat := Nat.not_le.mp hlowest
        rw [history_of_lt hshort, history_of_lt (hle.trans_lt hshort)]

theorem history_of_named (hlowest : (header.lowestNamed reach).toNat ≤ p.toNat) :
    history header reach headers ⟨p, p⟩ =
      match headers.get? p with
      | none => .missing p
      | some previous =>
        if header.Breaks previous p then .broken p
        else history header reach headers
          ⟨previous.previouslyForged, previous.previouslyForged⟩ := by
  rw [history_eq hlowest, if_pos rfl]
  cases hget : headers.get? p with
  | none => rfl
  | some previous =>
      simp only
      by_cases hbreaks : header.Breaks previous p
      · rw [if_pos hbreaks, if_pos hbreaks]
      · rw [if_neg hbreaks, if_neg hbreaks]
        have hlower : previous.previouslyForged.toNat < p.toNat := by
          rw [← UInt64.lt_iff_toNat_lt]
          exact UInt64.not_le.mp fun hle => hbreaks (.inr hle)
        have hbelow : (p.below 1).toNat = p.toNat - 1 := Header.toNat_below _ _
        apply history_of_named_le
        omega

end Walk

namespace Header.Names

variable {header : Header} {reach : Word} {headers : Window} {floor k : Nat} {p : Height}

theorem le_previouslyForged (h : header.Names headers floor k p) :
    p.toNat ≤ header.previouslyForged.toNat := by
  induction h with
  | first => exact Nat.le_refl _
  | next _ _ _ _ hlower ih =>
      rw [UInt64.lt_iff_toNat_lt] at hlower
      omega

theorem trail_eq (h : header.Names headers (header.lowestNamed reach).toNat k p) :
    header.trail reach headers = Walk.history header reach headers ⟨p, p⟩ := by
  induction h with
  | first =>
      apply Walk.history_of_named_le
      rw [Word.toNat_max]
      exact Nat.le_max_left _ _
  | next _ hfloor hget hgenerator hlower ih =>
      have hfollowed : ¬ header.Breaks _ _ := not_or.mpr
        ⟨not_not.mpr hgenerator, UInt64.not_le.mpr hlower⟩
      rw [ih, Walk.history_of_named hfloor]
      simp only [hget, if_neg hfollowed]

/-- A history is not followed for ever, since the heights that it names descend. -/
theorem exists_last (h : header.Names headers floor k p) :
    ∃ k p, header.Names headers floor k p ∧ (p.toNat < floor ∨ headers.get? p = none ∨
      ∃ previous, headers.get? p = some previous ∧ header.Breaks previous p) := by
  induction hheight : p.toNat using Nat.strongRecOn generalizing k p with
  | ind height ih =>
      by_cases hlow : p.toNat < floor
      · exact ⟨k, p, h, .inl hlow⟩
      · cases hget : headers.get? p with
        | none => exact ⟨k, p, h, .inr (.inl hget)⟩
        | some previous =>
            by_cases hbreaks : header.Breaks previous p
            · exact ⟨k, p, h, .inr (.inr ⟨previous, hget, hbreaks⟩)⟩
            · obtain ⟨hgenerator, hlower⟩ := not_or.mp hbreaks
              have hlower : previous.previouslyForged < p := UInt64.not_le.mp hlower
              have hnext := h.next (Nat.not_lt.mp hlow) hget (not_not.mp hgenerator) hlower
              rw [UInt64.lt_iff_toNat_lt] at hlower
              exact ih _ (by omega) hnext rfl

/-! ## Where the walk ends -/

section Ends

variable {m : Height} (h : header.Names headers (header.lowestNamed reach).toNat k p)
  (hm : header.precommitFloor? reach (header.trail reach headers) = some m)
include h hm

theorem eq_height_of_get?_eq_none (hlowest : (header.lowestNamed reach).toNat ≤ p.toNat)
    (hget : headers.get? p = none) : m = header.height := by
  have htrail : header.trail reach headers = .missing p := by
    rw [h.trail_eq, Walk.history_of_named hlowest]
    simp only [hget]
  rw [htrail] at hm
  exact (Option.some.inj hm).symm

theorem eq_succ_of_breaks {previous : Header}
    (hlowest : (header.lowestNamed reach).toNat ≤ p.toNat)
    (hget : headers.get? p = some previous) (hbreaks : header.Breaks previous p) :
    m.toNat = p.toNat + 1 := by
  have htrail : header.trail reach headers = .broken p := by
    rw [h.trail_eq, Walk.history_of_named hlowest]
    simp only [hget, if_pos hbreaks]
  rw [htrail] at hm
  exact Word.succ?_eq_some_iff.mp hm

theorem eq_lowestNamed_of_lt (hlow : p.toNat < (header.lowestNamed reach).toNat) :
    m = header.lowestNamed reach := by
  have htrail : header.trail reach headers = .complete := by
    rw [h.trail_eq, Walk.history_of_lt hlow]
  rw [htrail] at hm
  exact (Option.some.inj hm).symm

theorem exists_get?_eq_some (hlowest : (header.lowestNamed reach).toNat ≤ m.toNat)
    (hle : m.toNat ≤ p.toNat)
    (hforged : header.previouslyForged.toNat < header.height.toNat) :
    ∃ previous, headers.get? p = some previous ∧ previous.generator = header.generator := by
  have hnamed := h.le_previouslyForged
  cases hget : headers.get? p with
  | none =>
      have hheight := h.eq_height_of_get?_eq_none hm (hlowest.trans hle) hget
      rw [hheight] at hle
      omega
  | some previous =>
      refine ⟨previous, rfl, ?_⟩
      by_contra hgenerator
      have hsucc := h.eq_succ_of_breaks hm (hlowest.trans hle) hget (.inl hgenerator)
      omega

end Ends

end Header.Names

theorem Header.precommitFloor?_bounds {header : Header} {reach : Word} {headers : Window}
    {m : Height} (hreach : 0 < reach.toNat)
    (hforged : header.previouslyForged.toNat < header.height.toNat)
    (hm : header.precommitFloor? reach (header.trail reach headers) = some m) :
    (header.lowestNamed reach).toNat ≤ m.toNat ∧ m.toNat ≤ header.height.toNat := by
  have hlowestNat : (header.lowestNamed reach).toNat = max (header.height.toNat - reach.toNat) 1 :=
    Header.toNat_lowestNamed
  have hlast : ∃ k p, header.Names headers (header.lowestNamed reach).toNat k p ∧
      (p.toNat < (header.lowestNamed reach).toNat ∨ headers.get? p = none ∨
        ∃ previous, headers.get? p = some previous ∧ header.Breaks previous p) :=
    Header.Names.first.exists_last
  obtain ⟨k, p, hnames, hend⟩ := hlast
  have hnamed := hnames.le_previouslyForged
  by_cases hlow : p.toNat < (header.lowestNamed reach).toNat
  · rw [hnames.eq_lowestNamed_of_lt hm hlow]
    omega
  · have hlowest := Nat.not_lt.mp hlow
    rcases hend with hlt | hnone | ⟨previous, hget, hbreaks⟩
    · exact absurd hlt hlow
    · rw [hnames.eq_height_of_get?_eq_none hm hlowest hnone]
      omega
    · have hsucc := hnames.eq_succ_of_breaks hm hlowest hget hbreaks
      omega

namespace Finality

variable {f : Finality} {header : Header}

theorem toNat_lowestNamed :
    (header.lowestNamed f.reach).toNat = max (f.windowStart header) 1 := by
  rw [Header.toNat_lowestNamed, windowStart_eq]
  rfl

/-- Only a ballot adds precommits: a height that gains one is no lower than where the walk ended. -/
theorem le_of_precommits_lt {ledger after : Ledger} {validators : List Validator}
    {headers : Window} {m j : Height}
    (hm : header.precommitFloor? f.reach (header.trail f.reach headers) = some m)
    (hafter : (f.rules.count header ledger validators headers).ledger? ledger = some after)
    (hgain : (ledger.tally j).precommits < (after.tally j).precommits) : m.toNat ≤ j.toNat := by
  rw [UInt64.lt_iff_toNat_lt] at hgain
  cases hcount : f.rules.count header ledger validators headers with
  | abstained reason =>
      rw [hcount] at hafter
      obtain rfl := Option.some.inj hafter
      omega
  | overflowed trail =>
      rw [hcount] at hafter
      cases hafter
  | counted ballot votes counted =>
      rw [hcount] at hafter
      obtain rfl := Option.some.inj hafter
      obtain ⟨validator, -, hballot, hcast⟩ := VotingRules.count_eq_counted hcount
      have hvotes := (Ledger.isCast_cast? hcast).votes .precommit j
      have hmem : j ∈ ballot.precommits := by
        apply List.count_pos_iff.mp
        simp only [Tally.votes, Ballot.votes] at hvotes
        omega
      exact ((VotingRules.mem_precommits_iff hballot hm).mp hmem).2.2.1

/-- The walk down the history of a header, for every window of headers. It ends at the height of the
header if nothing is retained at a height named, above a height whose header breaks the history, and
at the lowest height looked at if the history names a lower one; one of these happens. A height from
there on that the history names was forged by the generator, so no precommit skips what the
generator forged. -/
theorem walk_follows (f : Finality) (header : Header) (headers : Window)
    (hforged : header.previouslyForged < header.height) :
    let floor := max (f.windowStart header) 1
    ∃ turns m, Walk.Ends header f.reach headers turns (Walk.start header f.reach) m ∧
      header.precommitFloor? f.reach (header.trail f.reach headers) = some m ∧
      floor ≤ m.toNat ∧ m.toNat ≤ header.height.toNat ∧
      (∀ k p, header.Names headers floor k p →
        (floor ≤ p.toNat → headers.get? p = none → m = header.height) ∧
        (∀ previous, floor ≤ p.toNat → headers.get? p = some previous →
          previous.generator ≠ header.generator ∨ p ≤ previous.previouslyForged →
            m.toNat = p.toNat + 1) ∧
        (p.toNat < floor → m.toNat = floor)) ∧
      (∃ k p, header.Names headers floor k p ∧ (p.toNat < floor ∨ headers.get? p = none ∨
        ∃ previous, headers.get? p = some previous ∧
          (previous.generator ≠ header.generator ∨ p ≤ previous.previouslyForged))) ∧
      ∀ ledger validators after j,
        (f.rules.count header ledger validators headers).ledger? ledger = some after →
        (ledger.tally j).precommits < (after.tally j).precommits →
          ∀ k p, header.Names headers floor k p → j ≤ p →
            ∃ previous ∈ headers.headers, previous.height = p ∧
              previous.generator = header.generator := by
  intro floor
  have hfloor : floor = (header.lowestNamed f.reach).toNat := toNat_lowestNamed.symm
  clear_value floor
  subst hfloor
  rw [UInt64.lt_iff_toNat_lt] at hforged
  have hwalk : ∃ turns m, Walk.Ends header f.reach headers turns (Walk.start header f.reach) m ∧
      turns ≤ f.reach.toNat ∧
      header.precommitFloor? f.reach (header.trail f.reach headers) = some m :=
    Walk.start_ends f.reach_pos hforged
  obtain ⟨turns, m, hends, -, hm⟩ := hwalk
  obtain ⟨hlowest, hheight⟩ := Header.precommitFloor?_bounds f.reach_pos hforged hm
  refine ⟨turns, m, hends, hm, hlowest, hheight, fun k p hnames => ⟨?_, ?_, ?_⟩,
    Header.Names.first.exists_last, ?_⟩
  · exact hnames.eq_height_of_get?_eq_none hm
  · exact fun previous => hnames.eq_succ_of_breaks hm
  · intro hlow
    rw [hnames.eq_lowestNamed_of_lt hm hlow]
  · intro ledger validators after j hafter hgain k p hnames hle
    have hstart : m.toNat ≤ j.toNat := le_of_precommits_lt hm hafter hgain
    rw [UInt64.le_iff_toNat_le] at hle
    obtain ⟨previous, hget, hgenerator⟩ :=
      hnames.exists_get?_eq_some hm hlowest (hstart.trans hle) hforged
    obtain ⟨hmem, hat⟩ := Window.get?_eq_some_iff.mp hget
    exact ⟨previous, hmem, hat, hgenerator⟩

/-- The history names the heights 7 and 5, and the header at height 5 is of another generator. -/
theorem walk_follows_of_break :
    let f : Finality := ⟨4, by decide, 0, 0, 0⟩
    let foreign : Header := ⟨5, .ofNat 5, .ofNat 4, .ofNat 2, 0, 0, 1, 0⟩
    let own : Header := ⟨7, .ofNat 7, .ofNat 6, .ofNat 1, 0, 0, 5, 0⟩
    let headers := ((Window.empty 20).insert foreign).insert own
    let header : Header := ⟨9, .ofNat 9, .ofNat 8, .ofNat 1, 0, 0, 7, 0⟩
    header.previouslyForged < header.height ∧ header.Names headers 1 1 5 ∧
      ∃ turns m, Walk.Ends header f.reach headers turns (Walk.start header f.reach) m ∧
        m.toNat = 6 := by
  intro f foreign own headers header
  have hforged : header.previouslyForged < header.height := by decide
  have hown : headers.get? header.previouslyForged = some own := by decide
  have hnames : header.Names headers 1 1 5 := .next .first (by decide) hown rfl (by decide)
  obtain ⟨turns, m, hends, -, -, -, hfollowed, -⟩ := walk_follows f header headers hforged
  have hbroken := (hfollowed 1 5 hnames).2.1 foreign (by decide) (by decide) (.inl (by decide))
  exact ⟨hforged, hnames, turns, m, hends, hbroken⟩

end Finality

end FinalityGadget
