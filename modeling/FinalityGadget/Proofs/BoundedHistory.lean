import FinalityGadget.Proofs.Reload

/-!
# Bounded histories

The ledger keeps a window of heights and the recent headers are as many. A count that kept all of
them would come to the same finalized height, the same vote heights and the same tallies of the
heights retained: a header reads and writes within its reach, which is shorter than the window, and
a height that was dropped gathers no more votes. A node counts the headers that it accepts in this
way, from the records that it wrote for the header before.
-/

namespace FinalityGadget

/-! ## Votes added to a pruned ledger -/

theorem Tally.ext_votes {s t : Tally} (h : ∀ kind, (s.votes kind).toNat = (t.votes kind).toNat) :
    s = t := by
  obtain ⟨prevotes, precommits⟩ := s
  obtain ⟨prevotes', precommits'⟩ := t
  have hprevotes : prevotes = prevotes' := UInt64.toNat_inj.mp (h .prevote)
  have hprecommits : precommits = precommits' := UInt64.toNat_inj.mp (h .precommit)
  rw [hprevotes, hprecommits]

namespace Ledger.IsPruned

variable {l pruned : Ledger} {window : Nat}

theorem tally_of_near (hpruned : l.IsPruned window pruned) {h : Height}
    (hnear : ∀ k, k ∈ l.tallies → k.toNat < h.toNat + window) : pruned.tally h = l.tally h := by
  by_cases hmem : h ∈ pruned.tallies
  · exact hpruned.tally h hmem
  · have hnot : h ∉ l.tallies := fun hl => hmem ((hpruned.mem_iff h).mpr ⟨hl, hnear⟩)
    rw [tally_of_not_mem hmem, tally_of_not_mem hnot]

theorem votes_le (hpruned : l.IsPruned window pruned) (kind : VoteKind) (h : Height) :
    ((pruned.tally h).votes kind).toNat ≤ ((l.tally h).votes kind).toNat := by
  by_cases hmem : h ∈ pruned.tallies
  · rw [hpruned.tally h hmem]
  · rw [tally_of_not_mem hmem, Tally.votes_zero]
    exact Nat.zero_le _

/-- Pruning now and again, as votes are added, leaves what pruning once at the end does. -/
theorem adds {heights : VoteKind → List Height} {counted countedPruned last : Ledger}
    (hpruned : l.IsPruned window pruned) (hwindow : 0 < window)
    (hfull : l.Adds heights counted) (hbounded : pruned.Adds heights countedPruned)
    (hvoters : countedPruned.voters = counted.voters)
    (hlast : countedPruned.IsPruned window last) : counted.IsPruned window last := by
  have hkept : ∀ k, k ∈ countedPruned.tallies → k ∈ counted.tallies := by
    intro k hk
    refine (hfull.mem_iff k).mpr (((hbounded.mem_iff k).mp hk).imp_left fun hk => ?_)
    exact ((hpruned.mem_iff k).mp hk).1
  have hmem : ∀ h, h ∈ last.tallies ↔
      h ∈ counted.tallies ∧ ∀ k, k ∈ counted.tallies → k.toNat < h.toNat + window := by
    intro h
    rw [hlast.mem_iff]
    constructor
    · rintro ⟨hh, hnear⟩
      refine ⟨hkept h hh, fun k hk => ?_⟩
      rcases (hfull.mem_iff k).mp hk with hkOld | hkNew
      · -- A height dropped before lies below one that was kept.
        rcases hpruned.mem_or_dropped hwindow hkOld with hkPruned | ⟨top, htop, hle⟩
        · exact hnear k ((hbounded.mem_iff k).mpr (.inl hkPruned))
        · have := hnear top ((hbounded.mem_iff top).mpr (.inl htop))
          omega
      · exact hnear k ((hbounded.mem_iff k).mpr (.inr hkNew))
    · rintro ⟨hh, hnear⟩
      refine ⟨(hbounded.mem_iff h).mpr (((hfull.mem_iff h).mp hh).imp_left fun hOld => ?_),
        fun k hk => hnear k (hkept k hk)⟩
      exact (hpruned.mem_iff h).mpr
        ⟨hOld, fun k hk => hnear k ((hfull.mem_iff k).mpr (.inl hk))⟩
  refine ⟨hlast.voters.trans hvoters, hmem, fun h hh => ?_⟩
  have hnear : ∀ k, k ∈ l.tallies → k.toNat < h.toNat + window :=
    fun k hk => ((hmem h).mp hh).2 k ((hfull.mem_iff k).mpr (.inl hk))
  rw [hlast.tally h hh]
  refine Tally.ext_votes fun kind => ?_
  rw [hbounded.votes, hfull.votes, hpruned.tally_of_near hnear]

end Ledger.IsPruned

/-! ## Counting with a history -/

/-- A header and the validators of its state. -/
structure Arrival where
  header : Header
  validators : List Validator

/-- What counting goes by. -/
structure History where
  finality : Finality
  ledger : Ledger
  headers : Window

namespace History

def start (finality : Finality) (capacity : Nat) : History :=
  ⟨finality, .empty, .empty capacity⟩

/-- Counts the votes of a header, raises the finalized height and keeps what `keep` leaves of the
ledger. -/
def next? (keep : Ledger → Option Ledger) (s : History) (arrival : Arrival) : Option History := do
  let counting := s.finality.rules.count arrival.header s.ledger arrival.validators s.headers
  let counted ← counting.ledger? s.ledger
  let kept ← keep counted
  return ⟨(s.finality.advance counted).2, kept, s.headers.insert arrival.header⟩

def run? (keep : Ledger → Option Ledger) (s : History) (arrivals : List Arrival) :
    Option History :=
  arrivals.foldlM (next? keep) s

/-- Pruned to the heights that are retained. -/
def prune? (f : Finality) (ledger : Ledger) : Option Ledger := ledger.prune? f.retained

theorem prune?_congr {f g : Finality} (hvalidators : f.validators = g.validators) :
    prune? f = prune? g := by
  unfold prune? Finality.retained
  rw [hvalidators]

theorem next?_eq_some {keep : Ledger → Option Ledger} {s : History} {arrival : Arrival}
    {counted kept : Ledger}
    (hcounted : (s.finality.rules.count arrival.header s.ledger arrival.validators
      s.headers).ledger? s.ledger = some counted) (hkept : keep counted = some kept) :
    s.next? keep arrival =
      some ⟨(s.finality.advance counted).2, kept, s.headers.insert arrival.header⟩ := by
  unfold next?
  simp [hcounted, hkept]

/-! ## A bounded history and a full one -/

/-- The votes of a header of height `top`, none of them twice and all within reach. -/
structure Near (top reach : Nat) (heights : VoteKind → List Height) : Prop where
  nodup : ∀ kind, (heights kind).Nodup
  pos : ∀ kind, ∀ h ∈ heights kind, 0 < h.toNat
  le : ∀ kind, ∀ h ∈ heights kind, h.toNat ≤ top
  le_add : ∀ kind, ∀ h ∈ heights kind, top ≤ h.toNat + reach

theorem near_nil (top reach : Nat) : Near top reach fun _ => [] where
  nodup _ := List.nodup_nil
  pos _ := by simp
  le _ := by simp
  le_add _ := by simp

theorem near_of_ballot? {rules : VotingRules} {header : Header} {validator : Validator}
    {ledger : Ledger} {headers : Window} {ballot : Ballot}
    (hballot : rules.ballot? header validator ledger headers = some ballot) :
    Near header.height.toNat rules.reach.toNat ballot.votes where
  nodup kind := (VotingRules.ascending_votes hballot kind).nodup
  pos _ _ hh := Nat.lt_of_le_of_lt (Nat.zero_le _) (VotingRules.highest_lt_of_mem hballot hh)
  le _ _ hh := VotingRules.le_height_of_mem hballot hh
  le_add _ _ hh := VotingRules.height_le_of_mem hballot hh

/-- A history that keeps a window and one that keeps everything, before the header of height
`next`. -/
structure Agrees (next : Nat) (bounded full : History) : Prop where
  validators : full.finality.validators = bounded.finality.validators
  finalized : full.finality.finalized = bounded.finality.finalized
  ledger : full.ledger.IsPruned bounded.finality.retained.toNat bounded.ledger
  below : ∀ h, h ∈ full.ledger.tallies → h.toNat < next
  /-- Every height gathers at most one vote a header, and none at the genesis height. -/
  votes : ∀ kind h, ((full.ledger.tally h).votes kind).toNat ≤ next - 1
  le_finalized : ∀ h, h ∈ full.ledger.tallies →
    full.finality.quorum.isMet (full.ledger.tally h).precommits = true →
    h.toNat ≤ full.finality.finalized.toNat
  capacity : bounded.headers.capacity = bounded.finality.retained.toNat
  headersBelow : ∀ p ∈ full.headers.headers, p.height.toNat < next
  headers : ∀ p ∈ bounded.headers.headers, p ∈ full.headers.headers
  near : ∀ p ∈ full.headers.headers,
    next ≤ p.height.toNat + bounded.finality.retained.toNat → p ∈ bounded.headers.headers

theorem agrees_start (f : Finality) (next capacity : Nat) :
    Agrees next (start f f.retained.toNat) (start f capacity) where
  validators := rfl
  finalized := rfl
  ledger := Ledger.isPruned_self fun h hh => by simp [start, Ledger.empty] at hh
  below h hh := by simp [start, Ledger.empty] at hh
  votes kind h := by simp [start]
  le_finalized h hh := by simp [start, Ledger.empty] at hh
  capacity := rfl
  headersBelow p hp := by simp [start, Window.empty] at hp
  headers p hp := hp
  near p hp := by simp [start, Window.empty] at hp

namespace Agrees

variable {next : Nat} {bounded full : History} {arrival : Arrival}
  {heights : VoteKind → List Height} {counted countedFull : Ledger}

theorem rules_eq (hagrees : Agrees next bounded full) :
    full.finality.rules = bounded.finality.rules := by
  simp only [Finality.rules, Finality.quorum, Finality.reach, hagrees.validators]

theorem tally_eq (hagrees : Agrees next bounded full) {h : Height}
    (hreach : next ≤ h.toNat + bounded.finality.reach.toNat) :
    bounded.ledger.tally h = full.ledger.tally h := by
  refine hagrees.ledger.tally_of_near fun k hk => ?_
  have hbelow := hagrees.below k hk
  have hlt := bounded.finality.reach_lt_retained
  omega

theorem get?_eq (hagrees : Agrees next bounded full) {h : Height}
    (hreach : next ≤ h.toNat + bounded.finality.reach.toNat) :
    bounded.headers.get? h = full.headers.get? h := by
  have hlt := bounded.finality.reach_lt_retained
  refine Window.get?_congr fun p hp => ⟨hagrees.headers p, fun hmem => ?_⟩
  exact hagrees.near p hmem (by rw [hp]; omega)

theorem exists_counted (hagrees : Agrees next bounded full)
    (hheight : arrival.header.height.toNat = next) :
    ∃ heights counted countedFull, Near next bounded.finality.reach.toNat heights ∧
      (bounded.finality.rules.count arrival.header bounded.ledger arrival.validators
        bounded.headers).ledger? bounded.ledger = some counted ∧
      (full.finality.rules.count arrival.header full.ledger arrival.validators
        full.headers).ledger? full.ledger = some countedFull ∧
      bounded.ledger.Adds heights counted ∧ full.ledger.Adds heights countedFull ∧
      counted.voters = countedFull.voters := by
  rw [hagrees.rules_eq]
  unfold VotingRules.count
  cases hvoter : VotingRules.voter arrival.header arrival.validators with
  | error reason =>
      exact ⟨_, bounded.ledger, full.ledger, near_nil _ _, rfl, rfl, .refl _, .refl _,
        hagrees.ledger.voters⟩
  | ok validator =>
      have hforged := (VotingRules.voter_eq_ok hvoter).1
      have hballot : ∃ ballot, bounded.finality.rules.ballot? arrival.header validator
          full.ledger full.headers = some ballot := VotingRules.ballot?_isSome hforged
      obtain ⟨ballot, hballot⟩ := hballot
      have hreach : bounded.finality.rules.reach = bounded.finality.reach := rfl
      -- All that the ballot depends on lies within reach, where the histories are the same.
      have hsame : bounded.finality.rules.ballot? arrival.header validator bounded.ledger
          bounded.headers = some ballot := by
        rw [← hballot]
        refine VotingRules.ballot?_congr (hagrees.ledger.votesOf _) (fun h hh => ?_)
          fun k hk => ?_
        · exact hagrees.tally_eq (by rw [hreach] at hh; omega)
        · exact hagrees.get?_eq (by rw [hreach] at hk; omega)
      have hnear := near_of_ballot? hballot
      rw [hheight] at hnear
      have hroom : ∀ kind, ∀ h ∈ ballot.votes kind,
          ((full.ledger.tally h).votes kind).toNat + (ballot.votes kind).count h ≤
            Word.maxNat := by
        intro kind h hh
        have honce := List.nodup_iff_count_le_one.mp (hnear.nodup kind) h
        have hvotes := hagrees.votes kind h
        have hpos := hnear.pos kind h hh
        have hle := hnear.le kind h hh
        have hmax := Word.toNat_le arrival.header.height
        omega
      have hfull : ∃ l, full.ledger.cast? arrival.header.generator ballot = some l :=
        Ledger.cast?_isSome hroom
      have hbounded : ∃ l, bounded.ledger.cast? arrival.header.generator ballot = some l := by
        refine Ledger.cast?_isSome fun kind h hh => ?_
        have hvotes := hagrees.ledger.votes_le kind h
        have := hroom kind h hh
        omega
      obtain ⟨countedFull, hcastFull⟩ := hfull
      obtain ⟨counted, hcast⟩ := hbounded
      have hisFull := Ledger.isCast_cast? hcastFull
      have his := Ledger.isCast_cast? hcast
      simp only [hballot, hsame, hcastFull, hcast]
      refine ⟨_, counted, countedFull, hnear, rfl, rfl, his.adds, hisFull.adds, ?_⟩
      rw [his.voters, hisFull.voters, hagrees.ledger.voters, hagrees.ledger.votesOf]

section Quorums

variable (hagrees : Agrees next bounded full)
  (hnear : Near next bounded.finality.reach.toNat heights)
  (hbounded : bounded.ledger.Adds heights counted) (hfull : full.ledger.Adds heights countedFull)

include hagrees hbounded hfull

theorem met_full {q : Quorum} {h : Height} (hmem : h ∈ counted.tallies)
    (hmet : q.isMet (counted.tally h).precommits = true) :
    h ∈ countedFull.tallies ∧ q.isMet (countedFull.tally h).precommits = true := by
  refine ⟨(hfull.mem_iff h).mpr (((hbounded.mem_iff h).mp hmem).imp_left fun hold => ?_), ?_⟩
  · exact ((hagrees.ledger.mem_iff h).mp hold).1
  · have hvotes : ((counted.tally h).precommits).toNat =
        ((bounded.ledger.tally h).precommits).toNat + (heights .precommit).count h :=
      hbounded.votes .precommit h
    have hvotesFull : ((countedFull.tally h).precommits).toNat =
        ((full.ledger.tally h).precommits).toNat + (heights .precommit).count h :=
      hfull.votes .precommit h
    have hle : ((bounded.ledger.tally h).precommits).toNat ≤
        ((full.ledger.tally h).precommits).toNat := hagrees.ledger.votes_le .precommit h
    rw [Quorum.isMet_iff] at hmet ⊢
    omega

include hnear

/-- A height that gathers a quorum is retained: one that had it before is finalized. -/
theorem met_bounded_or_le {h : Height}
    (hmet : full.finality.quorum.isMet (countedFull.tally h).precommits = true) :
    h ∈ counted.tallies ∧ full.finality.quorum.isMet (counted.tally h).precommits = true ∨
      h.toNat ≤ full.finality.finalized.toNat := by
  by_cases hnew : h ∈ heights .precommit
  · left
    refine ⟨(hbounded.mem_iff h).mpr (.inr ⟨_, hnew⟩), ?_⟩
    have hvotes : ((counted.tally h).precommits).toNat =
        ((countedFull.tally h).precommits).toNat := by
      have hsum := hbounded.votes .precommit h
      have hsumFull := hfull.votes .precommit h
      rw [hagrees.tally_eq (hnear.le_add _ h hnew), ← hsumFull] at hsum
      exact hsum
    rw [Quorum.isMet_iff] at hmet ⊢
    omega
  · right
    have hold : ((countedFull.tally h).precommits).toNat =
        ((full.ledger.tally h).precommits).toNat := by
      have hsum := hfull.votes .precommit h
      rwa [List.count_eq_zero.mpr hnew] at hsum
    have hmetOld : full.finality.quorum.isMet (full.ledger.tally h).precommits = true := by
      rw [Quorum.isMet_iff] at hmet ⊢
      omega
    have hpos : 0 < ((full.ledger.tally h).votes .precommit).toNat :=
      Nat.lt_of_lt_of_le (Quorum.votes_pos full.finality.validators_pos)
        (Quorum.isMet_iff.mp hmetOld)
    refine hagrees.le_finalized h ?_ hmetOld
    by_contra hnot
    rw [Ledger.tally_of_not_mem hnot] at hpos
    simp at hpos

theorem finalized_advance : (full.finality.advance countedFull).2.finalized =
    (bounded.finality.advance counted).2.finalized := by
  have hquorum : bounded.finality.quorum = full.finality.quorum := by
    simp only [Finality.quorum, hagrees.validators]
  have hfinalized := hagrees.finalized
  have hrises := Finality.toNat_finalized_advance full.finality countedFull
  have hrisesBounded := Finality.toNat_finalized_advance bounded.finality counted
  rw [← UInt64.toNat_inj]
  apply Nat.le_antisymm
  · rcases Finality.finalized_advance_cases full.finality countedFull with heq | ⟨-, hmet⟩
    · rw [heq, hfinalized]
      omega
    · rcases met_bounded_or_le hagrees hnear hbounded hfull hmet with ⟨hmem, hmet⟩ | hle
      · exact Finality.le_finalized_advance hmem (by rwa [hquorum])
      · rw [hfinalized] at hle
        omega
  · rcases Finality.finalized_advance_cases bounded.finality counted with heq | ⟨hmem, hmet⟩
    · rw [heq, ← hfinalized]
      omega
    · rw [hquorum] at hmet
      obtain ⟨hmem, hmet⟩ := met_full hagrees hbounded hfull hmem hmet
      exact Finality.le_finalized_advance hmem hmet

end Quorums

theorem step (hagrees : Agrees next bounded full) (hheight : arrival.header.height.toNat = next)
    (hroom : full.headers.size < full.headers.capacity) :
    ∃ bounded' full', bounded.next? (prune? bounded.finality) arrival = some bounded' ∧
      full.next? some arrival = some full' ∧ Agrees (next + 1) bounded' full' ∧
      bounded'.finality.validators = bounded.finality.validators ∧
      full'.headers = full.headers.insert arrival.header := by
  obtain ⟨heights, counted, countedFull, hnear, hcounted, hcountedFull, hadds, haddsFull,
    hvoters⟩ := hagrees.exists_counted hheight
  have hwindow := bounded.finality.retained_pos
  obtain ⟨pruned, hpruned⟩ := Ledger.prune?_isSome (l := counted) hwindow
  have hisPruned := Ledger.isPruned_prune? hpruned
  have hvalidators := (bounded.finality.parameters_advance counted).1
  have hvalidatorsFull := (full.finality.parameters_advance countedFull).1
  have hretained : (bounded.finality.advance counted).2.retained = bounded.finality.retained := by
    simp only [Finality.retained, hvalidators]
  have habove : ∀ p ∈ full.headers.headers, p.height < arrival.header.height := by
    intro p hp
    have := hagrees.headersBelow p hp
    rw [UInt64.lt_iff_toNat_lt]
    omega
  have haboveBounded : ∀ p ∈ bounded.headers.headers, p.height < arrival.header.height :=
    fun p hp => habove p (hagrees.headers p hp)
  refine ⟨_, _, next?_eq_some hcounted hpruned, next?_eq_some hcountedFull rfl, ?_, hvalidators,
    rfl⟩
  refine ⟨?_, ?_, ?_, fun h hh => ?_, fun kind h => ?_, fun h hh hmet => ?_, ?_,
    fun p hp => ?_, fun p hp => ?_, fun p hp hpNear => ?_⟩
  case refine_1 => exact hvalidatorsFull.trans (hagrees.validators.trans hvalidators.symm)
  case refine_2 => exact finalized_advance hagrees hnear hadds haddsFull
  case refine_3 =>
      rw [hretained]
      exact hagrees.ledger.adds hwindow haddsFull hadds hvoters hisPruned
  case refine_4 =>
      rcases (haddsFull.mem_iff h).mp hh with hold | ⟨kind, hnew⟩
      · have := hagrees.below h hold
        omega
      · have := hnear.le kind h hnew
        omega
  case refine_5 =>
      have hvotes := hagrees.votes kind h
      rw [haddsFull.votes]
      by_cases hnew : h ∈ heights kind
      · have honce := List.nodup_iff_count_le_one.mp (hnear.nodup kind) h
        have hpos := hnear.pos kind h hnew
        have hle := hnear.le kind h hnew
        omega
      · rw [List.count_eq_zero.mpr hnew]
        omega
  case refine_6 =>
      have hquorum : (full.finality.advance countedFull).2.quorum = full.finality.quorum := by
        simp only [Finality.quorum, hvalidatorsFull]
      rw [hquorum] at hmet
      exact Finality.le_finalized_advance hh hmet
  case refine_7 => exact hagrees.capacity.trans (congrArg UInt64.toNat hretained.symm)
  case refine_8 =>
      rcases Window.mem_insert hp with rfl | hold
      · omega
      · have := hagrees.headersBelow p hold
        omega
  case refine_9 =>
      refine Window.mem_insert_of_room habove ?_ hroom
      rcases Window.mem_insert hp with rfl | hold
      · exact List.mem_cons_self
      · exact List.mem_cons_of_mem _ (hagrees.headers p hold)
  case refine_10 =>
      rw [hretained] at hpNear
      refine Window.mem_insert_of_near haboveBounded ?_ (by rw [hagrees.capacity]; omega)
      rcases Window.mem_insert hp with rfl | hold
      · exact List.mem_cons_self
      · exact List.mem_cons_of_mem _ (hagrees.near p hold (by omega))

end Agrees

theorem exists_run (f : Finality) {next : Nat} {bounded full : History} {arrivals : List Arrival}
    (hagrees : Agrees next bounded full) (hvalidators : bounded.finality.validators = f.validators)
    (hheights : ∀ i (hi : i < arrivals.length), arrivals[i].header.height.toNat = next + i)
    (hcapacity : full.headers.size + arrivals.length ≤ full.headers.capacity) :
    ∃ bounded' full', bounded.run? (prune? f) arrivals = some bounded' ∧
      full.run? some arrivals = some full' ∧ bounded'.finality.validators = f.validators ∧
      Agrees (next + arrivals.length) bounded' full' := by
  -- Every header takes a place in the full window, so the room left is what the others need.
  induction arrivals generalizing next bounded full with
  | nil => exact ⟨bounded, full, rfl, rfl, hvalidators, hagrees⟩
  | cons arrival rest ih =>
      rw [List.length_cons] at hcapacity
      have hheight : arrival.header.height.toNat = next := hheights 0 (Nat.zero_lt_succ _)
      obtain ⟨bounded', full', hnext, hnextFull, hagrees', hvalidators', hheaders⟩ :=
        hagrees.step hheight (by omega)
      have hheights' : ∀ i (hi : i < rest.length),
          rest[i].header.height.toNat = next + 1 + i := by
        intro i hi
        have := hheights (i + 1) (Nat.succ_lt_succ hi)
        simp only [List.getElem_cons_succ] at this
        omega
      have hsize : full'.headers.size ≤ full.headers.size + 1 := by
        rw [hheaders]
        exact Window.size_insert_le
      have hcapacity' : full'.headers.capacity = full.headers.capacity := by
        rw [hheaders]
        rfl
      obtain ⟨last, lastFull, hrun, hrunFull, hlast, hagreesLast⟩ :=
        ih hagrees' (hvalidators'.trans hvalidators) hheights' (by omega)
      rw [prune?_congr hvalidators] at hnext
      refine ⟨last, lastFull, ?_, ?_, hlast, ?_⟩
      · exact Option.bind_eq_some_iff.mpr ⟨bounded', hnext, hrun⟩
      · exact Option.bind_eq_some_iff.mpr ⟨full', hnextFull, hrunFull⟩
      · rw [List.length_cons, Nat.add_comm rest.length, ← Nat.add_assoc]
        exact hagreesLast

theorem exists_run_start (f : Finality) {first capacity : Nat} {arrivals : List Arrival}
    (hheights : ∀ i (hi : i < arrivals.length), arrivals[i].header.height.toNat = first + i)
    (hcapacity : arrivals.length ≤ capacity) :
    ∃ bounded full, (start f f.retained.toNat).run? (prune? f) arrivals = some bounded ∧
      (start f capacity).run? some arrivals = some full ∧
      bounded.finality.validators = f.validators ∧
      Agrees (first + arrivals.length) bounded full := by
  refine exists_run f (agrees_start f first capacity) rfl hheights ?_
  simpa [start, Window.size, Window.empty] using hcapacity

/-- Headers of consecutive heights, counted with a window of history and with all of it: both
counts succeed and come to the same finalized height and vote heights; the bounded ledger is what
pruning leaves of the full one, with the same tallies. -/
theorem run?_bounded (f : Finality) {first capacity : Nat} {arrivals : List Arrival}
    (hheights : ∀ i (hi : i < arrivals.length), arrivals[i].header.height.toNat = first + i)
    (hcapacity : arrivals.length ≤ capacity) :
    ∃ bounded full, (start f f.retained.toNat).run? (prune? f) arrivals = some bounded ∧
      (start f capacity).run? some arrivals = some full ∧
      bounded.finality.finalized = full.finality.finalized ∧
      (∀ a, bounded.ledger.votesOf a = full.ledger.votesOf a) ∧
      full.ledger.IsPruned f.retained.toNat bounded.ledger := by
  obtain ⟨bounded, full, hrun, hrunFull, hvalidators, hagrees⟩ :=
    exists_run_start f hheights hcapacity
  refine ⟨bounded, full, hrun, hrunFull, hagrees.finalized.symm, hagrees.ledger.votesOf, ?_⟩
  have hpruned := hagrees.ledger
  rwa [Finality.retained, hvalidators] at hpruned

/-- Seven headers of a single validator, whose ledger retains five heights. -/
theorem run?_bounded_of_seven :
    let f : Finality := ⟨1, by decide, 0, 0, 0⟩
    let arrivals : List Arrival := (List.range 7).map fun i =>
      ⟨⟨.ofNat (i + 1), .ofNat (i + 1), .ofNat i, .ofNat 1, 0, 0, .ofNat i, 0⟩,
        [⟨.ofNat 1, true, 0⟩]⟩
    (∀ i (hi : i < arrivals.length), arrivals[i].header.height.toNat = 1 + i) ∧
      arrivals.length ≤ 7 ∧
      ((start f 5).run? (prune? f) arrivals).map (fun s => s.ledger.size) = some 5 ∧
      ((start f 7).run? some arrivals).map (fun s => s.ledger.size) = some 7 ∧
      ∃ bounded full, (start f f.retained.toNat).run? (prune? f) arrivals = some bounded ∧
        (start f 7).run? some arrivals = some full ∧
        bounded.finality.finalized = full.finality.finalized ∧
        (∀ a, bounded.ledger.votesOf a = full.ledger.votesOf a) ∧
        full.ledger.IsPruned f.retained.toNat bounded.ledger := by
  intro f arrivals
  have hheights : ∀ i (hi : i < arrivals.length), arrivals[i].header.height.toNat = 1 + i := by
    decide +kernel
  have hcapacity : arrivals.length ≤ 7 := by decide +kernel
  exact ⟨hheights, hcapacity, by cbv, by cbv,
    run?_bounded f hheights hcapacity⟩

end History

/-! ## The history of a node -/

/-- The header of a round and the validators of its state, if they can be told. -/
def Round.arrival (r : Round) : Arrival := ⟨r.header, (r.registry r.view).toOption.getD []⟩

/-- The headers that are accepted, each with the validators of its state. -/
def acceptedArrivals (rounds : List Round) : List Arrival :=
  (rounds.filter Round.isAccepted).map Round.arrival

theorem acceptedArrivals_concat (rounds : List Round) (r : Round) :
    acceptedArrivals (rounds ++ [r]) =
      acceptedArrivals rounds ++ if r.isAccepted then [r.arrival] else [] := by
  unfold acceptedArrivals
  cases h : r.isAccepted <;> simp [h]

theorem header_acceptedArrivals (rounds : List Round) :
    (acceptedArrivals rounds).map Arrival.header = acceptedHeaders rounds := by
  rw [acceptedArrivals, acceptedHeaders, List.map_map]
  rfl

theorem Finality.advance_prevoted (f : Finality) (prevoted : Height) (ledger : Ledger) :
    { f with prevoted }.advance ledger = f.advance ledger := by
  have hsame : { f with prevoted }.precommittedIn? ledger = f.precommittedIn? ledger := rfl
  unfold advance
  rw [hsame]
  cases f.precommittedIn? ledger with
  | none => rfl
  | some height =>
      by_cases hlt : f.finalized < height
      · simp only [hlt, if_true]
        rfl
      · simp only [hlt, if_false]
        rfl

theorem History.next?_prevoted (keep : Ledger → Option Ledger) (s : History) (prevoted : Height)
    (arrival : Arrival) :
    { s with finality := { s.finality with prevoted } }.next? keep arrival =
      s.next? keep arrival := by
  have hrules : { s.finality with prevoted }.rules = s.finality.rules := rfl
  unfold next?
  simp only [hrules, Finality.advance_prevoted]

namespace Node

variable {node : Node} {header : Header} {headers : List Header} {s : History}

/-- The heights, the records and the window of a node are those of a history. -/
structure Carries (node : Node) (s : History) : Prop where
  finality : node.gadget.finality = s.finality
  ledger : Ledger.load node.view = .ok s.ledger
  marker : ∃ m, Finality.marker node.view = .ok m ∧
    max (m.getD 0) s.finality.genesis = s.finality.finalized
  headers : node.store.headers = s.headers

theorem carries_start (hfresh : node.IsFresh) {n : Word} {genesis : Height}
    (hstart : Finality.start n genesis = .ok node.gadget.finality) :
    node.Carries (.start node.gadget.finality node.gadget.finality.retained.toNat) where
  finality := rfl
  ledger := Ledger.load_of_none hfresh.ledger
  marker := by
    obtain ⟨hn, heq⟩ := Finality.start_eq_ok_iff.mp hstart
    refine ⟨none, Finality.marker_of_none hfresh.marker, ?_⟩
    rw [← UInt64.toNat_inj, Word.toNat_max]
    simp [History.start, heq]
  headers := hfresh.headers

theorem Carries.read_eq (h : node.Carries s) :
    node.gadget.finality.read node.view =
      .ok ({ s.finality with prevoted := s.finality.prevotedIn s.ledger }, s.ledger) := by
  obtain ⟨m, hmarker, hfinalized⟩ := h.marker
  rw [h.finality]
  refine Finality.read_eq_ok_iff.mpr ⟨h.ledger, m, hmarker, ?_⟩
  rw [Finality.ofRecords, hfinalized]

theorem Carries.of_not_accepted (h : node.Carries s)
    (hnot : (node.round header).isAccepted = false) : (node.next header).Carries s := by
  obtain ⟨hfinality, hstore⟩ := next_of_not_accepted hnot
  have hview : (node.next header).view = node.view := by
    rw [view, hstore, next_db, view]
  refine ⟨hfinality.trans h.finality, ?_, ?_, hstore ▸ h.headers⟩
  · rw [hview]
    exact h.ledger
  · rw [hview]
    exact h.marker

theorem next?_history {synced : Finality}
    {ledger counted pruned : Ledger} {validators : List Validator}
    (happlied : (node.round header).IsApplied synced ledger validators counted pruned) :
    (⟨synced, ledger, node.store.headers⟩ : History).next? (History.prune? node.gadget.finality)
        ⟨header, validators⟩ =
      some ⟨(node.next header).gadget.finality, pruned, (node.next header).store.headers⟩ := by
  have haccepted : (node.round header).isAccepted = true :=
    Round.isAccepted_iff.mpr ⟨_, _, _, _, _, happlied⟩
  rw [(next_of_accepted haccepted).1, headers_next, if_pos haccepted, happlied.addition_eq.2.1]
  exact History.next?_eq_some happlied.counts happlied.prunes

theorem Carries.of_applied {synced : Finality} {ledger counted pruned : Ledger}
    {validators : List Validator} (h : node.Carries s)
    (happlied : (node.round header).IsApplied synced ledger validators counted pruned)
    (hload : Ledger.load (node.round header).viewAfter = .ok pruned) :
    ∃ s', s.next? (History.prune? node.gadget.finality) (node.round header).arrival = some s' ∧
      (node.next header).Carries s' := by
  have hread : (synced, ledger) =
      ({ s.finality with prevoted := s.finality.prevotedIn s.ledger }, s.ledger) :=
    Except.ok.inj (happlied.read.symm.trans h.read_eq)
  obtain ⟨hsynced, hledger⟩ := Prod.mk.inj hread
  have harrival : (node.round header).arrival = ⟨header, validators⟩ := by
    rw [Round.arrival, happlied.registered]
    rfl
  have hnext := next?_history happlied
  rw [hsynced, hledger, h.headers, ← harrival] at hnext
  have hview : (node.next header).view = (node.round header).viewAfter := by
    rw [view, next_db, view_next]
  have haccepted : (node.round header).isAccepted = true :=
    Round.isAccepted_iff.mpr ⟨_, _, _, _, _, happlied⟩
  obtain ⟨m, hmarker, hfinalized⟩ := happlied.exists_marker_viewAfter
  refine ⟨_, (History.next?_prevoted _ s _ _).symm.trans hnext, rfl, ?_, ⟨m, ?_, ?_⟩, rfl⟩
  · rw [hview]
    exact hload
  · rw [hview]
    exact hmarker
  · have hgenesis : (node.next header).gadget.finality.genesis = node.gadget.finality.genesis :=
      parameters_next.2
    show max (m.getD 0) (node.next header).gadget.finality.genesis = _
    rw [hgenesis, (next_of_accepted haccepted).1, happlied.addition_eq.2.1]
    exact hfinalized

/-- What a node holds after some headers is the history that counts the accepted ones. -/
theorem exists_carries (hfresh : node.IsFresh) {n : Word} {genesis : Height}
    (hstart : Finality.start n genesis = .ok node.gadget.finality) {voters : Finset Address}
    (hcard : voters.card ≤ Word.maxNat)
    (hvoters : ∀ r ∈ node.rounds headers, r.ballot?.isSome = true →
      r.header.generator ∈ voters) :
    ∃ s, (History.start node.gadget.finality node.gadget.finality.retained.toNat).run?
        (History.prune? node.gadget.finality) (acceptedArrivals (node.rounds headers)) = some s ∧
      (node.run headers).Carries s := by
  induction headers using List.reverseRecOn with
  | nil => exact ⟨_, rfl, carries_start hfresh hstart⟩
  | append_singleton headers header ih =>
      have hbefore : ∀ r ∈ node.rounds headers, r.ballot?.isSome = true →
          r.header.generator ∈ voters := by
        intro r hr
        exact hvoters r (by rw [rounds_concat]; exact List.mem_append_left _ hr)
      obtain ⟨s, hrun, hcarries⟩ := ih hbefore
      rw [rounds_concat, acceptedArrivals_concat, run_concat]
      cases haccepted : ((node.run headers).round header).isAccepted with
      | false =>
          rw [if_neg Bool.false_ne_true, List.append_nil]
          exact ⟨s, hrun, hcarries.of_not_accepted haccepted⟩
      | true =>
          obtain ⟨synced, ledger, validators, counted, pruned, happlied⟩ :=
            Round.isAccepted_iff.mp haccepted
          obtain ⟨loaded, hloaded, htallied⟩ :=
            exists_tallied (isRun hfresh headers) hcard hbefore
          rw [← view_round] at hloaded
          obtain rfl := happlied.ledger_eq (.refl _) hloaded
          rw [rounds_concat] at hvoters
          -- The voters are among the generators, so the ledger is small enough to be read back.
          have hload := (htallied.apply happlied parameters_run.1 hcard hvoters).2
          obtain ⟨s', hnext, hcarries'⟩ := hcarries.of_applied happlied hload
          rw [History.prune?_congr parameters_run.1] at hnext
          refine ⟨s', ?_, hcarries'⟩
          rw [if_pos rfl, History.run?, List.foldlM_append]
          exact Option.bind_eq_some_iff.mpr ⟨s, hrun, Option.bind_eq_some_iff.mpr ⟨s', hnext, rfl⟩⟩

/-- A node that was set up on an empty state and accepts headers of consecutive heights, and any
number of others it rejects, comes to the finalized height and the vote heights that follow from
everything it counted, and stores what pruning leaves of all tallies. -/
theorem run_bounded (hfresh : node.IsFresh) {n : Word} {genesis : Height}
    (hstart : Finality.start n genesis = .ok node.gadget.finality) {first capacity : Nat}
    (hheights : ∀ i (hi : i < (node.accepted headers).length),
      (node.accepted headers)[i].height.toNat = first + i)
    (hcapacity : (node.accepted headers).length ≤ capacity) :
    ∃ ledger full, Ledger.load (node.run headers).view = .ok ledger ∧
      (History.start node.gadget.finality capacity).run? some
        (acceptedArrivals (node.rounds headers)) = some full ∧
      (node.run headers).gadget.finality.finalized = full.finality.finalized ∧
      (∀ a, ledger.votesOf a = full.ledger.votesOf a) ∧
      full.ledger.IsPruned node.gadget.finality.retained.toNat ledger := by
  have hascending : (node.accepted headers).Pairwise fun a b => a.height < b.height := by
    refine List.pairwise_iff_getElem.mpr fun i j hi hj hlt => ?_
    rw [UInt64.lt_iff_toNat_lt, hheights i hi, hheights j hj]
    omega
  obtain ⟨voters, hcard, hvoters⟩ := exists_voters_of_ascending hascending
  obtain ⟨s, hrun, hcarries⟩ := exists_carries hfresh hstart hcard hvoters
  have hheaders := header_acceptedArrivals (node.rounds headers)
  have hlength : (acceptedArrivals (node.rounds headers)).length =
      (node.accepted headers).length := by
    rw [accepted, ← hheaders, List.length_map]
  have harrivals : ∀ i (hi : i < (acceptedArrivals (node.rounds headers)).length),
      (acceptedArrivals (node.rounds headers))[i].header.height.toNat = first + i := by
    intro i hi
    have hheight := hheights i (hlength ▸ hi)
    simpa only [accepted, ← hheaders, List.getElem_map] using hheight
  obtain ⟨bounded, full, hbounded, hfull, hvalidators, hagrees⟩ :=
    History.exists_run_start node.gadget.finality harrivals (hlength ▸ hcapacity)
  obtain rfl : s = bounded := Option.some.inj (hrun.symm.trans hbounded)
  refine ⟨s.ledger, full, hcarries.ledger, hfull, ?_, hagrees.ledger.votesOf, ?_⟩
  · rw [hcarries.finality, hagrees.finalized]
  · have hpruned := hagrees.ledger
    rwa [Finality.retained, hvalidators] at hpruned

end Node

end FinalityGadget
