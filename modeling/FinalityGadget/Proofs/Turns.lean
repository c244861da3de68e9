import FinalityGadget.Finality
import FinalityGadget.Proofs.Ballot
import FinalityGadget.Proofs.Window
import Mathlib.Data.Int.ModEq

/-!
# Turns

Where all members forge in turn, a height gathers a prevote of every header from its own on, and a
precommit of every header that finds a quorum of prevotes for it, until all members have voted. So
the ledger has a closed form, and so have the ballots that lead from one ledger to the next.
-/

namespace FinalityGadget

/-- The height that lies `lag - 1` below `top`, if there is one above genesis. -/
def lagging? (top lag : Nat) : Option Height :=
  if lag ≤ top then some (UInt64.ofNat (top + 1 - lag)) else none

theorem toNat_lagging? {top lag : Nat} (hlag : 0 < lag) (htop : top ≤ Word.maxNat) (d : Height) :
    ((lagging? top lag).getD d).toNat = if lag ≤ top then top + 1 - lag else d.toNat := by
  unfold lagging?
  split
  · exact Word.toNat_ofNat_of_le (by omega)
  · rfl

/-- How far votes of a kind lie below the header that casts them, where `q` is the quorum. -/
def VoteKind.lag (q : Nat) : VoteKind → Nat
  | .prevote => 0
  | .precommit => q

theorem VoteKind.lag_eq (q : Nat) (kind : VoteKind) : kind.lag q = 0 ∨ kind.lag q = q := by
  cases kind with
  | prevote => exact .inl rfl
  | precommit => exact .inr rfl

theorem VoteKind.lag_le (q : Nat) (kind : VoteKind) : kind.lag q ≤ q := by
  have := kind.lag_eq q
  omega

/-! ## The ledger -/

/-- The ledger after headers of the heights up to `top`, forged in turn by `n` members: it holds the
last `kept` heights, each with a vote for every header that could cast one, up to one a member. -/
structure Ledger.InTurn (n q kept top : Nat) (l : Ledger) : Prop where
  mem_iff : ∀ h, h ∈ l.tallies ↔ 0 < h.toNat ∧ h.toNat ≤ top ∧ top < h.toNat + kept
  votes : ∀ kind h, h ∈ l.tallies →
    ((l.tally h).votes kind).toNat = min (top + 1 - (h.toNat + kind.lag q)) n

namespace Ledger.InTurn

variable {n q kept top : Nat} {l counted pruned : Ledger}

theorem empty (n q kept : Nat) : Ledger.empty.InTurn n q kept 0 where
  mem_iff h := by
    have hnot : h ∉ Ledger.empty.tallies := by simp [Ledger.empty]
    simp only [hnot, false_iff]
    omega
  votes kind h hh := by simp [Ledger.empty] at hh

/-- The header of the next height votes for as many heights as there are members, or fewer near
genesis. -/
theorem adds (hledger : l.InTurn n q kept top) (hn : 0 < n) (hq : 0 < q) (hqn : q ≤ n)
    (hkept : 2 * n ≤ kept) {heights : VoteKind → List Height}
    (hadds : l.Adds heights counted) (hnodup : ∀ kind, (heights kind).Nodup)
    (hheights : ∀ kind h, h ∈ heights kind ↔ 0 < h.toNat ∧ h.toNat + kind.lag q ≤ top + 1 ∧
      top + 1 < h.toNat + n + kind.lag q) : counted.InTurn n q (kept + 1) (top + 1) where
  mem_iff h := by
    rw [hadds.mem_iff, hledger.mem_iff]
    constructor
    · rintro (hold | ⟨kind, hnew⟩)
      · omega
      · have hlag := kind.lag_le q
        rw [hheights] at hnew
        omega
    · rintro ⟨hpos, hle, hlt⟩
      rcases Nat.lt_or_eq_of_le hle with hbelow | htop
      · exact .inl (by omega)
      · refine .inr ⟨.prevote, (hheights _ _).mpr ?_⟩
        simp only [VoteKind.lag]
        omega
  votes kind h hh := by
    have hlag := kind.lag_le q
    have hcount : (heights kind).count h =
        if h.toNat + kind.lag q ≤ top + 1 ∧ top + 1 < h.toNat + n + kind.lag q ∧ 0 < h.toNat
        then 1 else 0 := by
      split
      · exact List.count_eq_one_of_mem (hnodup kind) ((hheights kind h).mpr (by omega))
      · refine List.count_eq_zero.mpr fun hmem => ?_
        have := (hheights kind h).mp hmem
        omega
    rw [hadds.votes, hcount]
    by_cases hold : h ∈ l.tallies
    · have hrange := (hledger.mem_iff h).mp hold
      rw [hledger.votes kind h hold]
      split <;> omega
    · -- Only the height of the header is new.
      have hnew : h.toNat = top + 1 := by
        rcases (hadds.mem_iff h).mp hh with hmem | ⟨kind', hmem⟩
        · exact absurd hmem hold
        · have hlag' := kind'.lag_le q
          rw [hheights] at hmem
          rw [hledger.mem_iff] at hold
          omega
      have hzero : (0 : Word).toNat = 0 := rfl
      have hcases := kind.lag_eq q
      rw [tally_of_not_mem hold, Tally.votes_zero, hzero]
      split <;> omega

theorem prune (hcounted : counted.InTurn n q (kept + 1) top) (hmax : top ≤ Word.maxNat)
    (hpruned : counted.IsPruned kept pruned) : pruned.InTurn n q kept top where
  mem_iff h := by
    rw [hpruned.mem_iff, hcounted.mem_iff]
    constructor
    · rintro ⟨⟨hpos, hle, hlt⟩, hnear⟩
      have htop : (UInt64.ofNat top).toNat = top := Word.toNat_ofNat_of_le hmax
      have := hnear (.ofNat top) ((hcounted.mem_iff _).mpr (by omega))
      omega
    · rintro ⟨hpos, hle, hlt⟩
      refine ⟨by omega, fun k hk => ?_⟩
      have := (hcounted.mem_iff k).mp hk
      omega
  votes kind h hh := by
    rw [hpruned.tally h hh]
    exact hcounted.votes kind h ((hpruned.mem_iff h).mp hh).1

theorem highestWhere?_eq (hledger : l.InTurn n q kept top) (hq : 0 < q) (hqn : q ≤ n)
    (hkept : 2 * n ≤ kept) (hmax : top ≤ Word.maxNat) {quorum : Quorum}
    (hquorum : quorum.votes.toNat = q) (kind : VoteKind) :
    (l.highestWhere? fun tally => quorum.isMet (tally.votes kind)) =
      lagging? top (kind.lag q + q) := by
  have hlag := kind.lag_le q
  have hmet : ∀ h, h ∈ l.tallies →
      (quorum.isMet ((l.tally h).votes kind) = true ↔ h.toNat + (kind.lag q + q) ≤ top + 1) := by
    intro h hh
    rw [Quorum.isMet_iff, hquorum, hledger.votes kind h hh]
    omega
  have hhighest : ((lagging? top (kind.lag q + q)).getD 0).toNat =
      if kind.lag q + q ≤ top then top + 1 - (kind.lag q + q) else (0 : Word).toNat :=
    toNat_lagging? (by omega) hmax 0
  unfold lagging? at hhighest ⊢
  split
  · rename_i hle
    rw [if_pos hle, if_pos hle, Option.getD_some] at hhighest
    have hmem : UInt64.ofNat (top + 1 - (kind.lag q + q)) ∈ l.tallies :=
      (hledger.mem_iff _).mpr (by omega)
    refine highestWhere?_eq_some_iff.mpr
      ⟨⟨hmem, (hmet _ hmem).mpr (by omega)⟩, fun k hk hkMet => ?_⟩
    have := (hmet k hk).mp hkMet
    omega
  · refine highestWhere?_eq_none_iff.mpr fun k hk => ?_
    have hpos := (hledger.mem_iff k).mp hk
    by_contra hkMet
    have := (hmet k hk).mp (by simpa using hkMet)
    omega

theorem toNat_prevotedIn (hledger : l.InTurn n q kept top) (hq : 0 < q) (hqn : q ≤ n)
    (hkept : 2 * n ≤ kept) (hmax : top ≤ Word.maxNat) {f : Finality}
    (hquorum : f.quorum.votes.toNat = q) (hfinalized : f.finalized.toNat = top + 1 - 2 * q) :
    (f.prevotedIn l).toNat = top + 1 - q := by
  have hhighest : (l.highestWhere? fun tally => f.quorum.isMet tally.prevotes) =
      lagging? top (0 + q) := hledger.highestWhere?_eq hq hqn hkept hmax hquorum .prevote
  unfold Finality.prevotedIn
  rw [hhighest, Nat.zero_add, toNat_lagging? hq hmax, hfinalized]
  split <;> omega

end Ledger.InTurn

/-! ## Members and their turns -/

/-- Members with addresses of their own that take part in consensus from genesis on. -/
structure AllParticipate (members : List Validator) : Prop where
  nodup : (members.map Validator.address).Nodup
  participates : ∀ v ∈ members, v.participates = true
  activeFrom : ∀ v ∈ members, v.activeFrom = 0

/-- The block of a height is the turn of the member with this address. -/
def HasTurn (members : List Validator) (address : Address) (height : Nat) : Prop :=
  (members[(height - 1) % members.length]?).map Validator.address = some address

instance (members : List Validator) (address : Address) (height : Nat) :
    Decidable (HasTurn members address height) :=
  inferInstanceAs (Decidable (_ = _))

namespace HasTurn

variable {members : List Validator} {a b : Address} {h k : Nat}

theorem eq (ha : HasTurn members a h) (hb : HasTurn members b h) : a = b :=
  Option.some.inj (ha.symm.trans hb)

theorem exists_member (ha : HasTurn members a h) : ∃ v ∈ members, v.address = a := by
  obtain ⟨v, hv, haddress⟩ := Option.map_eq_some_iff.mp ha
  exact ⟨v, List.mem_of_getElem? hv, haddress⟩

theorem length_pos (ha : HasTurn members a h) : 0 < members.length := by
  obtain ⟨v, hv, -⟩ := ha.exists_member
  exact List.length_pos_of_mem hv

theorem sub_length (hk : HasTurn members a k) (hlt : members.length < k) :
    HasTurn members a (k - members.length) := by
  have hmod : (k - members.length - 1) % members.length = (k - 1) % members.length := by
    rw [← Nat.add_mod_right (k - members.length - 1) members.length]
    congr 1
    omega
  unfold HasTurn
  rw [hmod]
  exact hk

theorem add_length_le (hmembers : AllParticipate members) (hh : HasTurn members a h)
    (hk : HasTurn members a k) (hpos : 0 < h) (hlt : h < k) : h + members.length ≤ k := by
  have hsame : (h - 1) % members.length = (k - 1) % members.length := by
    refine (List.getElem?_inj ?_ hmembers.nodup).mp ?_
    · rw [List.length_map]
      exact Nat.mod_lt _ hh.length_pos
    · rw [List.getElem?_map, List.getElem?_map, hh, hk]
  have hdvd : members.length ∣ k - 1 - (h - 1) :=
    (Nat.modEq_iff_dvd' (by omega)).mp hsame
  have := Nat.le_of_dvd (by omega) hdvd
  omega

end HasTurn

/-- A header that is forged in turn: it names the turn before and claims the prevoted height. -/
structure Header.InTurn (members : List Validator) (q : Nat) (header : Header) : Prop where
  pos : 0 < header.height.toNat
  generator : HasTurn members header.generator header.height.toNat
  forged : header.previouslyForged.toNat = header.height.toNat - members.length
  prevoted : header.prevoted.toNat = header.height.toNat - q

/-- The recent headers after those of the heights up to `top`, forged in turn. -/
structure Window.InTurn (members : List Validator) (q kept top : Nat) (w : Window) : Prop where
  capacity : w.capacity = kept
  headers : ∀ p ∈ w.headers, p.InTurn members q ∧ p.height.toNat ≤ top
  exists_header : ∀ k, 0 < k → k ≤ top → top < k + kept → ∃ p ∈ w.headers, p.height.toNat = k

section Header

variable {members : List Validator} {q kept top : Nat} {w : Window} {header : Header}

theorem Window.InTurn.empty (members : List Validator) (q kept : Nat) :
    (Window.empty kept).InTurn members q kept 0 where
  capacity := rfl
  headers p hp := by simp [Window.empty] at hp
  exists_header k hpos hle := by omega

theorem Header.InTurn.forged_lt (hheader : header.InTurn members q) :
    header.previouslyForged.toNat < header.height.toNat := by
  have hlength := hheader.generator.length_pos
  have hpos := hheader.pos
  rw [hheader.forged]
  omega

theorem Window.InTurn.insert (hwindow : w.InTurn members q kept top)
    (hheader : header.InTurn members q) (hheight : header.height.toNat = top + 1)
    (hkept : 0 < kept) : (w.insert header).InTurn members q kept (top + 1) where
  capacity := hwindow.capacity
  headers p hp := by
    rcases mem_insert hp with rfl | hold
    · exact ⟨hheader, Nat.le_of_eq hheight⟩
    · obtain ⟨hturn, hle⟩ := hwindow.headers p hold
      exact ⟨hturn, by omega⟩
  exists_header k hpos hle hlt := by
    have habove : ∀ p ∈ w.headers, p.height < header.height := by
      intro p hp
      have := (hwindow.headers p hp).2
      rw [UInt64.lt_iff_toNat_lt]
      omega
    have hcapacity := hwindow.capacity
    rcases Nat.lt_or_eq_of_le hle with hbelow | rfl
    · obtain ⟨p, hp, hpHeight⟩ := hwindow.exists_header k hpos (by omega) (by omega)
      exact ⟨p, mem_insert_of_near habove (List.mem_cons_of_mem _ hp) (by omega), hpHeight⟩
    · exact ⟨header, mem_insert_of_near habove List.mem_cons_self (by omega), hheight⟩

/-- All headers that the history of a header in turn names are retained. -/
theorem Header.InTurn.trail_eq_complete (hheader : header.InTurn members q)
    (hwindow : w.InTurn members q kept top) (hheight : header.height.toNat = top + 1)
    {reach : Word} (hreach : reach.toNat < kept) : header.trail reach w = .complete := by
  have hlength := hheader.generator.length_pos
  let Named : Height → Prop := fun k =>
    k.toNat = 0 ∨ HasTurn members header.generator k.toNat ∧ k.toNat ≤ top
  have hbefore : ∀ k l : Height, HasTurn members header.generator k.toNat → k.toNat ≤ top + 1 →
      l.toNat = k.toNat - members.length → Named l := by
    intro k l hturn hle hl
    rcases Nat.lt_or_ge members.length k.toNat with hlt | hge
    · right
      rw [hl]
      exact ⟨hturn.sub_length hlt, by omega⟩
    · left
      omega
  refine Trail.scan_eq_complete Named (fun k hk hpos hlowest => ?_) ?_
  · rcases hk with hzero | ⟨hturn, hle⟩
    · omega
    · rw [toNat_lowestNamed] at hlowest
      obtain ⟨p, hp, hpHeight⟩ := hwindow.exists_header k.toNat hpos hle (by omega)
      have hpTurn := (hwindow.headers p hp).1
      have hgenerator : p.generator = header.generator :=
        (hpHeight ▸ hpTurn.generator).eq hturn
      have hforged := hpTurn.forged
      rw [hpHeight] at hforged
      refine ⟨p, Window.get?_eq_some_iff.mpr ⟨hp, UInt64.toNat_inj.mp hpHeight⟩, hgenerator, ?_,
        hbefore k _ hturn (by omega) hforged⟩
      rw [UInt64.lt_iff_toNat_lt]
      omega
  · exact hbefore header.height _ hheader.generator (by omega) hheader.forged

theorem Header.InTurn.follows (hmembers : AllParticipate members)
    (hheader : header.InTurn members q) {previous : Header}
    (hprevious : previous.InTurn members q) (hgenerator : previous.generator = header.generator)
    (hlt : previous.height.toNat < header.height.toNat) : header.Follows previous := by
  have happart : previous.height.toNat + members.length ≤ header.height.toNat :=
    HasTurn.add_length_le hmembers hprevious.generator (hgenerator ▸ hheader.generator)
      hprevious.pos hlt
  have hforged := hheader.forged
  have hpreviousForged := hprevious.forged
  have hprevoted := hheader.prevoted
  have hpreviousPrevoted := hprevious.prevoted
  exact ⟨⟨by omega, by omega, fun _ => hlt⟩, by omega⟩

theorem VotingRules.exists_voter (hmembers : AllParticipate members)
    (hheader : header.InTurn members q) :
    ∃ validator, voter header members = .ok validator ∧ validator.activeFrom = 0 := by
  obtain ⟨member, hmember, haddress⟩ := hheader.generator.exists_member
  have hsome : (members.find? fun v => v.address = header.generator).isSome = true :=
    List.find?_isSome.mpr ⟨member, hmember, by simpa using haddress⟩
  obtain ⟨validator, hfind⟩ := Option.isSome_iff_exists.mp hsome
  have hmem := List.mem_of_find?_eq_some hfind
  have hlower : ¬ header.height ≤ header.previouslyForged := by
    rw [UInt64.le_iff_toNat_le]
    exact Nat.not_le.mpr hheader.forged_lt
  refine ⟨validator, ?_, hmembers.activeFrom validator hmem⟩
  unfold voter
  rw [if_neg hlower]
  simp only [hfind, hmembers.participates validator hmem, if_true]

end Header

/-! ## The votes of a header -/

/-- Every member has voted up to its last turn; `k` is its next one. -/
def Ledger.HighestInTurn (members : List Validator) (q top : Nat) (l : Ledger) : Prop :=
  ∀ a k, HasTurn members a k → top < k → k ≤ top + members.length → ∀ kind : VoteKind,
    ((l.votesOf a).highest kind).toNat = k - members.length - kind.lag q

section Ballot

variable {members : List Validator} {q kept top : Nat} {w : Window} {header : Header}
  {rules : VotingRules} {validator : Validator} {ledger counted : Ledger} {ballot : Ballot}

theorem VotingRules.mem_votes_iff (hq : 0 < q) (hqn : q ≤ members.length)
    (hquorum : rules.quorum.votes.toNat = q)
    (hreach : rules.reach.toNat = 3 * members.length - 1)
    (hledger : ledger.InTurn members.length q (5 * members.length) top)
    (hhighest : ledger.HighestInTurn members q top)
    (hwindow : w.InTurn members q (5 * members.length) top)
    (hheader : header.InTurn members q) (hheight : header.height.toNat = top + 1)
    (hactive : validator.activeFrom = 0)
    (hballot : rules.ballot? header validator ledger w = some ballot) (kind : VoteKind)
    (h : Height) :
    h ∈ ballot.votes kind ↔ 0 < h.toNat ∧ h.toNat + kind.lag q ≤ top + 1 ∧
      top + 1 < h.toNat + members.length + kind.lag q := by
  have hturn := hheader.generator
  rw [hheight] at hturn
  have hvotes := hhighest header.generator (top + 1) hturn (by omega) (by omega) kind
  have hlowest : rules.lowestFor header validator = top + 1 - (3 * members.length - 1) := by
    unfold lowestFor
    rw [hheight, hreach, hactive]
    exact Nat.max_eq_left (Nat.zero_le _)
  have hforged := hheader.forged
  rw [hheight] at hforged
  cases kind with
  | prevote =>
      have hvoted : ((ledger.votesOf header.generator).prevoted).toNat =
        top + 1 - members.length - 0 := hvotes
      show h ∈ ballot.prevotes ↔ _
      rw [mem_prevotes_iff hballot, hlowest]
      simp only [VoteKind.lag]
      omega
  | precommit =>
      have hvoted : ((ledger.votesOf header.generator).precommitted).toNat =
        top + 1 - members.length - q := hvotes
      have hcomplete : header.trail rules.reach w = .complete :=
        hheader.trail_eq_complete hwindow hheight (by omega)
      have hfloor : header.precommitFloor? rules.reach (header.trail rules.reach w) =
          some (header.lowestNamed rules.reach) := by
        rw [hcomplete]
        rfl
      have hlowestNamed : (header.lowestNamed rules.reach).toNat =
          max (header.height.toNat - rules.reach.toNat) 1 := Header.toNat_lowestNamed
      have hmet : rules.quorum.isMet (ledger.tally h).prevotes = true ↔
          0 < h.toNat ∧ h.toNat ≤ top ∧ top < h.toNat + 5 * members.length ∧
            h.toNat + q ≤ top + 1 := by
        rw [Quorum.isMet_iff, hquorum]
        by_cases hmem : h ∈ ledger.tallies
        · have hrange := (hledger.mem_iff h).mp hmem
          have htally : ((ledger.tally h).prevotes).toNat =
              min (top + 1 - (h.toNat + 0)) members.length := hledger.votes .prevote h hmem
          omega
        · have hrange := (hledger.mem_iff h).not.mp hmem
          rw [Ledger.tally_of_not_mem hmem]
          have hzero : (0 : Word).toNat = 0 := rfl
          simp only [hzero]
          omega
      show h ∈ ballot.precommits ↔ _
      rw [mem_precommits_iff hballot hfloor, hmet, hlowest]
      simp only [VoteKind.lag]
      omega

theorem Ballot.toNat_highest_raise {votes : VoteHeights} (hlength : 0 < members.length)
    (hascending : ∀ kind, Height.Ascending (ballot.votes kind)) (hmax : top ≤ Word.maxNat)
    (hmem : ∀ kind h, h ∈ ballot.votes kind ↔ 0 < h.toNat ∧ h.toNat + kind.lag q ≤ top ∧
      top < h.toNat + members.length + kind.lag q) (kind : VoteKind)
    (hvotes : (votes.highest kind).toNat = top - members.length - kind.lag q) :
    ((ballot.raise votes).highest kind).toNat = top - kind.lag q := by
  rw [highest_raise]
  rcases Nat.lt_or_ge (kind.lag q) top with hlt | hge
  · have hlast : (UInt64.ofNat (top - kind.lag q)).toNat = top - kind.lag q :=
      Word.toNat_ofNat_of_le (by omega)
    have hget : (ballot.votes kind).getLast? = some (.ofNat (top - kind.lag q)) := by
      refine (hascending kind).getLast?_eq ((hmem kind _).mpr (by omega)) fun h hh => ?_
      have := (hmem kind h).mp hh
      omega
    rw [hget, Option.getD_some, hlast]
  · have hnil : ballot.votes kind = [] := by
      refine List.eq_nil_iff_forall_not_mem.mpr fun h hh => ?_
      have := (hmem kind h).mp hh
      omega
    rw [hnil]
    show (votes.highest kind).toNat = _
    omega

theorem Ledger.HighestInTurn.cast (hmembers : AllParticipate members)
    (hhighest : ledger.HighestInTurn members q top)
    (hturn : HasTurn members header.generator (top + 1))
    (hcast : ledger.IsCast header.generator ballot counted)
    (hraised : ∀ kind, ((ballot.raise (ledger.votesOf header.generator)).highest kind).toNat =
      top + 1 - kind.lag q) : counted.HighestInTurn members q (top + 1) := by
  intro a k hk hlt hle kind
  have hlength := hk.length_pos
  rw [hcast.votesOf]
  rcases Nat.lt_or_eq_of_le hle with hbelow | hnext
  · have hother : header.generator ≠ a := by
      rintro rfl
      have := HasTurn.add_length_le hmembers hturn hk (by omega) hlt
      omega
    rw [if_neg hother]
    exact hhighest a k hk (by omega) (by omega) kind
  · -- The generator itself comes next, a whole round later.
    have hsame : header.generator = a := by
      have hback := hk.sub_length (by omega)
      rw [hnext, Nat.add_sub_cancel] at hback
      exact hturn.eq hback
    rw [if_pos hsame, hraised]
    omega

end Ballot

end FinalityGadget
