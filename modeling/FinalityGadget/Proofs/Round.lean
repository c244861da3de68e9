import FinalityGadget.Finality
import FinalityGadget.Proofs.Ballot
import Mathlib

/-!
# One round

A round is a header together with everything it is applied to. An accepted round reads the records
of its state, counts at most one ballot and writes the pruned ledger and perhaps the marker; a
round that is not accepted leaves its state as it was.
-/

namespace FinalityGadget

theorem Ledger.key_ne_key : Ledger.key ≠ Finality.key := by
  have hledger : Ledger.key.length = 16 := by cbv
  have hmarker : Finality.key.length = 19 := by cbv
  intro heq
  rw [heq, hmarker] at hledger
  omega

/-- A header and all that it is applied to. -/
structure Round where
  finality : Finality
  header : Header
  store : Store
  db : Database
  registry : Registry

namespace Finality

/-- The heights that follow from a marker and a ledger. -/
def ofRecords (f : Finality) (marker : Option Height) (ledger : Ledger) : Finality :=
  let raised := { f with finalized := max (marker.getD 0) f.genesis }
  { raised with prevoted := raised.prevotedIn ledger }

variable {f synced : Finality} {view : View} {ledger : Ledger}

theorem marker_of_none (hview : view key = .ok none) : marker view = .ok none := by
  rw [marker, View.record?, hview]

theorem read_eq_ok_iff :
    f.read view = .ok (synced, ledger) ↔
      Ledger.load view = .ok ledger ∧ ∃ m, marker view = .ok m ∧ synced = f.ofRecords m ledger := by
  unfold read Finality.synced
  simp only [bind_eq_ok_iff, pure, Except.pure, Except.ok.injEq, Prod.mk.injEq]
  constructor
  · rintro ⟨loaded, hload, s, ⟨m, hmarker, rfl⟩, rfl, rfl⟩
    exact ⟨hload, m, hmarker, rfl⟩
  · rintro ⟨hload, m, hmarker, rfl⟩
    exact ⟨ledger, hload, _, ⟨m, hmarker, rfl⟩, rfl, rfl⟩

theorem load_of_records {n : Word} (hn : 0 < n) {genesis : Height} {m : Option Height}
    (hledger : Ledger.load view = .ok ledger)
    (hmarker : marker view = .ok m) :
    load n genesis view =
      .ok ((⟨n, hn, genesis, genesis, genesis⟩ : Finality).ofRecords m ledger) := by
  have hstart : start n genesis = .ok ⟨n, hn, genesis, genesis, genesis⟩ := dif_pos hn
  unfold load
  rw [bind_eq_ok_iff]
  refine ⟨_, hstart, bind_eq_ok_iff.mpr ⟨(_, ledger), ?_, rfl⟩⟩
  exact read_eq_ok_iff.mpr ⟨hledger, m, hmarker, rfl⟩

theorem check_eq_ok_iff {header : Header} {headers : Window} :
    f.check header headers = .ok () ↔
      (f.reach.toNat ≤ headers.size → header.prevoted = f.prevoted) ∧
        ∀ previous, headers.lastBy? header.generator = some previous →
          previous.contradiction? header = none := by
  unfold check
  by_cases hclaim : f.reach.toNat ≤ headers.size ∧ header.prevoted ≠ f.prevoted
  · rw [if_pos hclaim]
    simp only [reduceCtorEq, false_iff, not_and]
    exact fun himp => absurd (himp hclaim.1) hclaim.2
  · rw [if_neg hclaim]
    have hprevoted : f.reach.toNat ≤ headers.size → header.prevoted = f.prevoted := by
      simpa using hclaim
    cases headers.lastBy? header.generator with
    | none => simpa using hprevoted
    | some previous =>
        cases hnone : previous.contradiction? header with
        | none => simpa [hnone] using hprevoted
        | some contradiction => simp [hnone]

theorem le_prevotedIn {height : Height} (hmem : height ∈ ledger.tallies)
    (hmet : f.quorum.isMet (ledger.tally height).prevotes = true) :
    height.toNat ≤ (f.prevotedIn ledger).toNat :=
  Ledger.le_getD_highestWhere? hmem hmet f.finalized

theorem toNat_validators_pos (f : Finality) : 0 < f.validators.toNat :=
  UInt64.lt_iff_toNat_lt.mp f.validators_pos

theorem toNat_retained (f : Finality) :
    f.retained.toNat = min (f.validators.toNat * 5) Word.maxNat := Word.toNat_satMul _ _

theorem reach_add_one (f : Finality) :
    f.reach.toNat + 1 = (Word.satMul f.validators 3).toNat := by
  have hpos := f.toNat_validators_pos
  have hthree : (Word.satMul f.validators 3).toNat = min (f.validators.toNat * 3) Word.maxNat :=
    Word.toNat_satMul _ _
  have hone : (1 : Word).toNat = 1 := rfl
  have hle : 1 ≤ (Word.satMul f.validators 3).toNat := by
    rw [hthree]
    unfold Word.maxNat
    omega
  rw [reach, UInt64.toNat_sub_of_le _ _ (UInt64.le_iff_toNat_le.mpr (hone ▸ hle)), hone]
  omega

theorem toNat_reach (f : Finality) :
    f.reach.toNat = min (f.validators.toNat * 3) Word.maxNat - 1 := by
  have hreach := f.reach_add_one
  have hthree : (Word.satMul f.validators 3).toNat = min (f.validators.toNat * 3) Word.maxNat :=
    Word.toNat_satMul _ _
  omega

theorem reach_pos (f : Finality) : 0 < f.reach.toNat := by
  have hpos := f.toNat_validators_pos
  rw [toNat_reach]
  unfold Word.maxNat
  omega

theorem retained_pos (f : Finality) : 0 < f.retained.toNat := by
  have hpos := f.toNat_validators_pos
  rw [toNat_retained]
  unfold Word.maxNat
  omega

theorem reach_lt_retained (f : Finality) : f.reach.toNat < f.retained.toNat := by
  have hpos := f.toNat_validators_pos
  rw [toNat_reach, toNat_retained]
  unfold Word.maxNat
  omega

theorem advance_fst_iff :
    (f.advance ledger).1 = true ↔
      ∃ height, f.precommittedIn? ledger = some height ∧ f.finalized < height := by
  unfold advance
  cases f.precommittedIn? ledger with
  | none => simp
  | some height =>
      by_cases hlt : f.finalized < height
      · simp [hlt]
      · simp [hlt]

theorem precommittedIn?_of_advance (hadvanced : (f.advance ledger).1 = true) :
    f.precommittedIn? ledger = some (f.advance ledger).2.finalized ∧
      f.finalized < (f.advance ledger).2.finalized := by
  obtain ⟨height, hheight, hlt⟩ := advance_fst_iff.mp hadvanced
  have hfinalized : (f.advance ledger).2.finalized = height := by
    simp [advance, hheight, hlt]
  rw [hfinalized]
  exact ⟨hheight, hlt⟩

theorem prevoted_advance (f : Finality) (ledger : Ledger) :
    (f.advance ledger).2.prevoted = (f.advance ledger).2.prevotedIn ledger := by
  unfold advance
  cases f.precommittedIn? ledger with
  | none => rfl
  | some height => by_cases hlt : f.finalized < height <;> simp [hlt] <;> rfl

theorem finalized_advance_of_not {ledger : Ledger} (hnot : (f.advance ledger).1 = false) :
    (f.advance ledger).2.finalized = f.finalized := by
  have hnone : ¬ ∃ height, f.precommittedIn? ledger = some height ∧ f.finalized < height := by
    rw [← advance_fst_iff, hnot]
    simp
  unfold advance
  cases hheight : f.precommittedIn? ledger with
  | none => rfl
  | some height =>
      have hle : ¬ f.finalized < height := fun hlt => hnone ⟨height, hheight, hlt⟩
      simp [hle]

theorem toNat_finalized_advance (f : Finality) (ledger : Ledger) :
    (f.advance ledger).2.finalized.toNat =
      max f.finalized.toNat ((f.precommittedIn? ledger).getD 0).toNat := by
  unfold advance
  cases f.precommittedIn? ledger with
  | none => exact (Nat.max_eq_left (Nat.zero_le _)).symm
  | some height =>
      by_cases hlt : f.finalized < height
      · have hltNat := UInt64.lt_iff_toNat_lt.mp hlt
        simp only [hlt, if_true, Option.getD_some]
        omega
      · rw [UInt64.lt_iff_toNat_lt] at hlt
        simp only [UInt64.lt_iff_toNat_lt, hlt, if_false, Option.getD_some]
        omega

theorem le_finalized_advance {height : Height} (hmem : height ∈ ledger.tallies)
    (hmet : f.quorum.isMet (ledger.tally height).precommits = true) :
    height.toNat ≤ (f.advance ledger).2.finalized.toNat := by
  have hle : height.toNat ≤ ((f.precommittedIn? ledger).getD 0).toNat :=
    Ledger.le_getD_highestWhere? hmem hmet 0
  rw [toNat_finalized_advance]
  omega

theorem finalized_advance_cases (f : Finality) (ledger : Ledger) :
    (f.advance ledger).2.finalized = f.finalized ∨
      (f.advance ledger).2.finalized ∈ ledger.tallies ∧
        f.quorum.isMet (ledger.tally (f.advance ledger).2.finalized).precommits = true := by
  cases hadvanced : (f.advance ledger).1 with
  | false => exact .inl (finalized_advance_of_not hadvanced)
  | true =>
      have hhighest := (precommittedIn?_of_advance hadvanced).1
      exact .inr (Ledger.highestWhere?_eq_some_iff.mp hhighest).1

theorem view_record_eq (f : Finality) (advanced : Bool) (ledger : Ledger) (store : Store)
    (db : Database) (key : Key) :
    (f.record advanced ledger store).view db key =
      if advanced = true ∧ Finality.key = key then .ok (some (Format.word.encode f.finalized))
      else if Ledger.key = key then .ok (some (Ledger.format.encode ledger))
      else store.view db key := by
  unfold record
  cases advanced <;> simp [Store.setLedger, Store.view_set]

theorem headers_record {advanced : Bool} {store : Store} :
    (f.record advanced ledger store).headers = store.headers := by
  unfold record
  cases advanced <;> rfl

theorem parameters_advance (f : Finality) (ledger : Ledger) :
    (f.advance ledger).2.validators = f.validators ∧
      (f.advance ledger).2.genesis = f.genesis := by
  unfold advance
  cases f.precommittedIn? ledger with
  | none => exact ⟨rfl, rfl⟩
  | some height => by_cases hlt : f.finalized < height <;> simp [hlt]

end Finality

namespace Round

/-- What the state of a round reads. -/
def view (r : Round) : View := r.store.view r.db

def addition (r : Round) : Addition := r.finality.add r.header r.store r.db r.registry

/-- What the state of a round reads once the round is over. -/
def viewAfter (r : Round) : View := r.addition.store.view r.db

def isAccepted (r : Round) : Bool :=
  match r.addition.verdict with
  | .accepted _ => true
  | _ => false

/-- The ballot that a round counts, if it counts one. -/
def ballot? (r : Round) : Option Ballot :=
  match r.finality.prepare r.header r.store r.db r.registry with
  | .error _ => none
  | .ok (synced, ledger, validators) =>
    match synced.rules.count r.header ledger validators r.store.headers with
    | .counted ballot _ _ => some ballot
    | _ => none

/-- The heights that a round counts a vote of a kind for, once for every vote. -/
def heights (r : Round) (kind : VoteKind) : List Height :=
  (r.ballot?.map fun ballot => ballot.votes kind).getD []

/-- A round comes to its end: `synced` and `ledger` are read, `counted` is the ledger after
counting and `pruned` the one that is written. -/
structure IsApplied (r : Round) (synced : Finality) (ledger : Ledger)
    (validators : List Validator) (counted pruned : Ledger) : Prop where
  read : r.finality.read r.view = .ok (synced, ledger)
  checked : synced.check r.header r.store.headers = .ok ()
  registered : r.registry r.view = .ok validators
  counts : (synced.rules.count r.header ledger validators r.store.headers).ledger? ledger =
    some counted
  prunes : counted.prune? r.finality.retained = some pruned

variable {r : Round}

theorem prepare_eq_ok_iff {synced : Finality} {ledger : Ledger} {validators : List Validator} :
    r.finality.prepare r.header r.store r.db r.registry = .ok (synced, ledger, validators) ↔
      r.finality.read r.view = .ok (synced, ledger) ∧
        synced.check r.header r.store.headers = .ok () ∧ r.registry r.view = .ok validators := by
  unfold Finality.prepare view
  simp only [bind_eq_ok_iff, pure, Except.pure, Except.ok.injEq, Prod.mk.injEq]
  constructor
  · rintro ⟨⟨f, l⟩, hread, ⟨⟩, hcheck, listed, hregistry, rfl, rfl, rfl⟩
    exact ⟨hread, hcheck, hregistry⟩
  · rintro ⟨hread, hcheck, hregistry⟩
    exact ⟨(synced, ledger), hread, (), hcheck, validators, hregistry, rfl, rfl, rfl⟩

theorem verdict_of_prepare {e : Error}
    (hprepare : r.finality.prepare r.header r.store r.db r.registry = .error e) :
    r.addition.verdict = .rejected e := by
  unfold addition Finality.add
  simp only [hprepare]

/-! ## Rounds that are accepted -/

theorem isApplied_or_unchanged :
    (∃ synced ledger validators counted pruned,
      r.IsApplied synced ledger validators counted pruned) ∨
      r.isAccepted = false ∧ r.addition.store = r.store ∧ r.addition.finality = r.finality := by
  unfold isAccepted addition Finality.add
  cases hprepare : r.finality.prepare r.header r.store r.db r.registry with
  | error e => exact .inr ⟨rfl, rfl, rfl⟩
  | ok prepared =>
      obtain ⟨synced, ledger, validators⟩ := prepared
      obtain ⟨hread, hcheck, hregistry⟩ := prepare_eq_ok_iff.mp hprepare
      cases hcounted :
        (synced.rules.count r.header ledger validators r.store.headers).ledger? ledger with
      | none =>
          right
          simp [hcounted]
      | some counted =>
          cases hpruned : counted.prune? r.finality.retained with
          | none =>
              right
              simp [hcounted, hpruned]
          | some pruned =>
              exact .inl ⟨synced, ledger, validators, counted, pruned,
                ⟨hread, hcheck, hregistry, hcounted, hpruned⟩⟩

theorem isAccepted_iff :
    r.isAccepted = true ↔
      ∃ synced ledger validators counted pruned,
        r.IsApplied synced ledger validators counted pruned := by
  constructor
  · intro haccepted
    rcases r.isApplied_or_unchanged with happlied | ⟨hnot, -⟩
    · exact happlied
    · rw [hnot] at haccepted
      simp at haccepted
  · rintro ⟨synced, ledger, validators, counted, pruned, happlied⟩
    have hprepare := prepare_eq_ok_iff.mpr
      ⟨happlied.read, happlied.checked, happlied.registered⟩
    unfold isAccepted addition Finality.add
    simp only [hprepare, happlied.counts, happlied.prunes]
    cases (synced.advance counted).1 <;> rfl

theorem unchanged_of_not_accepted (hnot : r.isAccepted = false) :
    r.addition.store = r.store ∧ r.addition.finality = r.finality := by
  rcases r.isApplied_or_unchanged with happlied | ⟨-, hunchanged⟩
  · rw [isAccepted_iff.mpr happlied] at hnot
    simp at hnot
  · exact hunchanged

theorem viewAfter_of_not_accepted (hnot : r.isAccepted = false) : r.viewAfter = r.view := by
  unfold viewAfter
  rw [(unchanged_of_not_accepted hnot).1]
  rfl

theorem isAccepted_of_ballot? {ballot : Ballot} (hballot : r.ballot? = some ballot) :
    r.isAccepted = true := by
  unfold ballot? at hballot
  split at hballot
  · simp at hballot
  · rename_i synced ledger validators hprepare
    split at hballot
    · rename_i b votes counted hcount
      obtain ⟨hread, hcheck, hregistry⟩ := prepare_eq_ok_iff.mp hprepare
      obtain ⟨pruned, hpruned⟩ := Ledger.prune?_isSome (l := counted) r.finality.retained_pos
      refine isAccepted_iff.mpr ⟨synced, ledger, validators, counted, pruned, ?_⟩
      refine ⟨hread, hcheck, hregistry, ?_, hpruned⟩
      rw [hcount]
      rfl
    · simp at hballot

theorem heights_of_not_accepted (hnot : r.isAccepted = false) (kind : VoteKind) :
    r.heights kind = [] := by
  unfold heights
  cases hballot : r.ballot? with
  | none => rfl
  | some ballot =>
      have haccepted := isAccepted_of_ballot? hballot
      rw [hnot] at haccepted
      simp at haccepted

namespace IsApplied

variable {synced : Finality} {ledger counted pruned : Ledger} {validators : List Validator}

theorem validators_eq_of_fixed (h : r.IsApplied synced ledger validators counted pruned)
    {members : List Validator} (hregistry : r.registry = .fixed members) :
    members = validators := by
  have hregistered := h.registered
  rw [hregistry] at hregistered
  exact Except.ok.inj hregistered

theorem addition_eq (h : r.IsApplied synced ledger validators counted pruned) :
    r.addition.verdict = .accepted
        (if (synced.advance counted).1 then some (synced.advance counted).2.finalized else none) ∧
      r.addition.finality = (synced.advance counted).2 ∧
      r.addition.store =
        (synced.advance counted).2.record (synced.advance counted).1 pruned r.store := by
  have hprepare := prepare_eq_ok_iff.mpr ⟨h.read, h.checked, h.registered⟩
  unfold addition Finality.add
  simp only [hprepare, h.counts, h.prunes]
  cases (synced.advance counted).1 <;> exact ⟨rfl, rfl, rfl⟩

theorem viewAfter_eq (h : r.IsApplied synced ledger validators counted pruned) (key : Key) :
    r.viewAfter key =
      if (synced.advance counted).1 = true ∧ Finality.key = key then
        .ok (some (Format.word.encode (synced.advance counted).2.finalized))
      else if Ledger.key = key then .ok (some (Ledger.format.encode pruned))
      else r.view key := by
  unfold viewAfter
  rw [h.addition_eq.2.2, Finality.view_record_eq]
  rfl

theorem viewAfter_ledger (h : r.IsApplied synced ledger validators counted pruned) :
    r.viewAfter Ledger.key = .ok (some (Ledger.format.encode pruned)) := by
  rw [h.viewAfter_eq, if_neg fun hkey => Ledger.key_ne_key hkey.2.symm, if_pos rfl]

theorem viewAfter_marker (h : r.IsApplied synced ledger validators counted pruned) :
    r.viewAfter Finality.key =
      if (synced.advance counted).1 then
        .ok (some (Format.word.encode (synced.advance counted).2.finalized))
      else r.view Finality.key := by
  rw [h.viewAfter_eq, if_neg Ledger.key_ne_key]
  simp only [and_true]

theorem precommits_of_verdict (h : r.IsApplied synced ledger validators counted pruned)
    {height : Height} (hverdict : r.addition.verdict = .accepted (some height)) :
    height ∈ counted.tallies ∧
      r.finality.quorum.isMet (counted.tally height).precommits = true := by
  obtain ⟨m, -, hsynced⟩ := (Finality.read_eq_ok_iff.mp h.read).2
  rw [h.addition_eq.1] at hverdict
  cases hadvanced : (synced.advance counted).1 with
  | false => simp [hadvanced] at hverdict
  | true =>
      have hheight : (synced.advance counted).2.finalized = height := by
        simpa [hadvanced] using hverdict
      have hhighest := (Finality.precommittedIn?_of_advance hadvanced).1
      rw [hheight, hsynced] at hhighest
      exact (Ledger.highestWhere?_eq_some_iff.mp hhighest).1

/-- The ledger that a round writes is the one that its successors read. -/
theorem load_viewAfter (h : r.IsApplied synced ledger validators counted pruned)
    (hvoters : pruned.voters.size ≤ Word.maxNat) : Ledger.load r.viewAfter = .ok pruned := by
  have htallies : pruned.tallies.size ≤ Word.maxNat :=
    (Ledger.isPruned_prune? h.prunes).size_le.trans (Word.toNat_le _)
  have hreads := Ledger.reads_format hvoters htallies
  rw [Ledger.load, View.record?_of_reads hreads h.viewAfter_ledger]

theorem marker_viewAfter (h : r.IsApplied synced ledger validators counted pruned) :
    Finality.marker r.viewAfter =
      if (synced.advance counted).1 then .ok (some (synced.advance counted).2.finalized)
      else Finality.marker r.view := by
  have hmarker := h.viewAfter_marker
  cases hadvanced : (synced.advance counted).1 with
  | true =>
      rw [hadvanced, if_pos rfl] at hmarker
      exact View.record?_of_reads (Format.reads_word _) hmarker
  | false =>
      rw [hadvanced, if_neg Bool.false_ne_true] at hmarker
      rw [if_neg Bool.false_ne_true, Finality.marker, Finality.marker, View.record?, View.record?,
        hmarker]

theorem exists_marker_viewAfter (h : r.IsApplied synced ledger validators counted pruned) :
    ∃ m, Finality.marker r.viewAfter = .ok m ∧
      max (m.getD 0) r.finality.genesis = (synced.advance counted).2.finalized := by
  obtain ⟨-, m, hmarker, hsynced⟩ := Finality.read_eq_ok_iff.mp h.read
  have hfinalized : synced.finalized = max (m.getD 0) r.finality.genesis := by
    rw [hsynced]
    rfl
  have hafter := h.marker_viewAfter
  cases hadvanced : (synced.advance counted).1 with
  | true =>
      rw [hadvanced, if_pos rfl] at hafter
      refine ⟨_, hafter, ?_⟩
      have hlt := (Finality.precommittedIn?_of_advance hadvanced).2
      rw [UInt64.lt_iff_toNat_lt, hfinalized, Word.toNat_max] at hlt
      rw [← UInt64.toNat_inj, Option.getD_some, Word.toNat_max]
      omega
  | false =>
      rw [hadvanced, if_neg (by simp), hmarker] at hafter
      refine ⟨m, hafter, ?_⟩
      rw [Finality.finalized_advance_of_not hadvanced, hfinalized]

theorem marker_eq_or_verdict (h : r.IsApplied synced ledger validators counted pruned)
    {m : Option Height} (hmarker : Finality.marker r.viewAfter = .ok m) :
    Finality.marker r.view = .ok m ∨
      ∃ height, m = some height ∧ r.addition.verdict = .accepted (some height) := by
  have hverdict := h.addition_eq.1
  rw [h.marker_viewAfter] at hmarker
  cases hadvanced : (synced.advance counted).1 with
  | false =>
      rw [hadvanced, if_neg (by simp)] at hmarker
      exact .inl hmarker
  | true =>
      rw [hadvanced, if_pos rfl] at hmarker hverdict
      exact .inr ⟨_, (Except.ok.inj hmarker).symm, hverdict⟩

theorem ballot?_eq_some (h : r.IsApplied synced ledger validators counted pruned)
    {ballot : Ballot} (hballot : r.ballot? = some ballot) :
    ∃ validator, VotingRules.voter r.header validators = .ok validator ∧
      synced.rules.ballot? r.header validator ledger r.store.headers = some ballot ∧
      ledger.cast? r.header.generator ballot = some counted := by
  have hprepare := prepare_eq_ok_iff.mpr ⟨h.read, h.checked, h.registered⟩
  have hcounts := h.counts
  unfold Round.ballot? at hballot
  simp only [hprepare] at hballot
  cases hcount : synced.rules.count r.header ledger validators r.store.headers with
  | abstained reason => simp [hcount] at hballot
  | overflowed trail => simp [hcount] at hballot
  | counted b votes after =>
      rw [hcount] at hcounts
      simp only [hcount] at hballot
      obtain rfl := Option.some.inj hballot
      obtain rfl := Option.some.inj hcounts
      exact VotingRules.count_eq_counted hcount

theorem exists_cast_of_voter (h : r.IsApplied synced ledger validators counted pruned)
    {validator : Validator} (hvoter : VotingRules.voter r.header validators = .ok validator) :
    ∃ ballot, synced.rules.ballot? r.header validator ledger r.store.headers = some ballot ∧
      ledger.cast? r.header.generator ballot = some counted := by
  have hcounts := h.counts
  unfold VotingRules.count at hcounts
  simp only [hvoter] at hcounts
  cases hballot : synced.rules.ballot? r.header validator ledger r.store.headers with
  | none => simp [hballot, Counting.ledger?] at hcounts
  | some ballot =>
      cases hcast : ledger.cast? r.header.generator ballot with
      | none => simp [hballot, hcast, Counting.ledger?] at hcounts
      | some after =>
          simp only [hballot, hcast] at hcounts
          exact ⟨ballot, rfl, by rw [hcast]; exact hcounts⟩

theorem exists_ballot?_of_voter (h : r.IsApplied synced ledger validators counted pruned)
    {validator : Validator} (hvoter : VotingRules.voter r.header validators = .ok validator) :
    ∃ ballot, r.ballot? = some ballot ∧
      synced.rules.ballot? r.header validator ledger r.store.headers = some ballot := by
  have hprepare := prepare_eq_ok_iff.mpr ⟨h.read, h.checked, h.registered⟩
  obtain ⟨ballot, hballot, hcast⟩ := h.exists_cast_of_voter hvoter
  refine ⟨ballot, ?_, hballot⟩
  unfold Round.ballot? VotingRules.count
  simp only [hprepare, hvoter, hballot, hcast]

theorem counted_of_ballot?_eq_none (h : r.IsApplied synced ledger validators counted pruned)
    (hnone : r.ballot? = none) : counted = ledger := by
  have hprepare := prepare_eq_ok_iff.mpr ⟨h.read, h.checked, h.registered⟩
  have hcounts := h.counts
  unfold Round.ballot? at hnone
  simp only [hprepare] at hnone
  cases hcount : synced.rules.count r.header ledger validators r.store.headers with
  | abstained reason =>
      rw [hcount] at hcounts
      exact (Option.some.inj hcounts).symm
  | overflowed trail =>
      rw [hcount] at hcounts
      simp [Counting.ledger?] at hcounts
  | counted b votes after => simp [hcount] at hnone

end IsApplied

theorem exists_cast {ballot : Ballot} (hballot : r.ballot? = some ballot) :
    ∃ synced ledger validators counted pruned validator,
      r.IsApplied synced ledger validators counted pruned ∧
        VotingRules.voter r.header validators = .ok validator ∧
        synced.rules.ballot? r.header validator ledger r.store.headers = some ballot := by
  obtain ⟨synced, ledger, validators, counted, pruned, happlied⟩ :=
    isAccepted_iff.mp (isAccepted_of_ballot? hballot)
  obtain ⟨validator, hvoter, hrules, -⟩ := happlied.ballot?_eq_some hballot
  exact ⟨synced, ledger, validators, counted, pruned, validator, happlied, hvoter, hrules⟩

/-! ## The votes of a round -/

/-- What counting a round makes of the ledger `before`: every tally grows by the votes for its
height, all of them above the heights that the generator had voted for. -/
structure Counts (r : Round) (before counted : Ledger) : Prop where
  votes : ∀ kind h, ((counted.tally h).votes kind).toNat =
    ((before.tally h).votes kind).toNat + (r.heights kind).count h
  mem_iff : ∀ h, h ∈ counted.tallies ↔ h ∈ before.tallies ∨ ∃ kind, h ∈ r.heights kind
  nodup : ∀ kind, (r.heights kind).Nodup
  above : ∀ kind, ∀ h ∈ r.heights kind,
    ((before.votesOf r.header.generator).highest kind).toNat < h.toNat
  reached : ∀ kind, ∀ h ∈ r.heights kind,
    h.toNat ≤ ((counted.votesOf r.header.generator).highest kind).toNat
  raised : ∀ kind a,
    ((before.votesOf a).highest kind).toNat ≤ ((counted.votesOf a).highest kind).toNat
  quorum : ∀ h ∈ r.heights .precommit, r.finality.quorum.isMet (before.tally h).prevotes = true
  mem_voters : ∀ a, a ∈ counted.voters →
    a ∈ before.voters ∨ a = r.header.generator ∧ r.ballot?.isSome = true

theorem heights_of_ballot? {ballot : Ballot} (hballot : r.ballot? = some ballot)
    (kind : VoteKind) : r.heights kind = ballot.votes kind := by
  rw [heights, hballot]
  rfl

theorem heights_of_ballot?_eq_none (hnone : r.ballot? = none) (kind : VoteKind) :
    r.heights kind = [] := by
  rw [heights, hnone]
  rfl

theorem exists_ballot?_of_mem {kind : VoteKind} {h : Height} (hh : h ∈ r.heights kind) :
    ∃ ballot, r.ballot? = some ballot ∧ h ∈ ballot.votes kind := by
  cases hballot : r.ballot? with
  | none =>
      rw [heights_of_ballot?_eq_none hballot] at hh
      simp at hh
  | some ballot =>
      rw [heights_of_ballot? hballot] at hh
      exact ⟨ballot, rfl, hh⟩

theorem le_height_of_vote {kind : VoteKind} {h : Height} (hh : h ∈ r.heights kind) :
    h.toNat ≤ r.header.height.toNat := by
  obtain ⟨ballot, hballot, hmem⟩ := exists_ballot?_of_mem hh
  obtain ⟨_, _, _, _, _, _, -, -, hrules⟩ := exists_cast hballot
  exact VotingRules.le_height_of_mem hrules hmem

theorem Counts.refl (hnone : r.ballot? = none) (ledger : Ledger) : r.Counts ledger ledger where
  votes kind h := by simp [heights_of_ballot?_eq_none hnone]
  mem_iff h := by simp [heights_of_ballot?_eq_none hnone]
  nodup kind := by simp [heights_of_ballot?_eq_none hnone]
  above kind := by simp [heights_of_ballot?_eq_none hnone]
  reached kind := by simp [heights_of_ballot?_eq_none hnone]
  raised _ _ := Nat.le_refl _
  quorum := by simp [heights_of_ballot?_eq_none hnone]
  mem_voters _ ha := .inl ha

theorem Counts.of_cast {synced : Finality} {ledger counted : Ledger} {validator : Validator}
    {ballot : Ballot} (hquorum : synced.quorum = r.finality.quorum)
    (hsome : r.ballot? = some ballot)
    (hballot : synced.rules.ballot? r.header validator ledger r.store.headers = some ballot)
    (hcast : ledger.IsCast r.header.generator ballot counted) : r.Counts ledger counted := by
  have hheights := heights_of_ballot? hsome
  have hgenerator : counted.votesOf r.header.generator =
      ballot.raise (ledger.votesOf r.header.generator) := by
    rw [hcast.votesOf, if_pos rfl]
  have hbounds := VotingRules.highest_raise_bounds hballot
  refine ⟨fun kind h => ?_, fun h => ?_, fun kind => ?_, fun kind h hh => ?_, fun kind h hh => ?_,
    fun kind a => ?_, fun h hh => ?_, fun a ha => ?_⟩
  · rw [hheights, hcast.votes]
  · rw [hcast.mem_iff]
    simp only [hheights]
  · rw [hheights]
    exact (VotingRules.ascending_votes hballot kind).nodup
  · rw [hheights] at hh
    exact VotingRules.highest_lt_of_mem hballot hh
  · rw [hheights] at hh
    rw [hgenerator]
    exact (hbounds kind).2 h hh
  · by_cases heq : r.header.generator = a
    · subst heq
      rw [hgenerator]
      exact (hbounds kind).1
    · rw [hcast.votesOf, if_neg heq]
  · rw [hheights] at hh
    rw [← hquorum]
    exact (VotingRules.mem_precommits hballot hh).2.2.2.1
  · rcases (hcast.mem_voters_iff a).mp ha with rfl | ha
    · exact .inr ⟨rfl, by rw [hsome]; rfl⟩
    · exact .inl ha

theorem IsApplied.counts_ledger {synced : Finality} {ledger counted pruned : Ledger}
    {validators : List Validator} (h : r.IsApplied synced ledger validators counted pruned) :
    r.Counts ledger counted := by
  obtain ⟨-, m, -, hsynced⟩ := Finality.read_eq_ok_iff.mp h.read
  cases hballot : r.ballot? with
  | none =>
      rw [h.counted_of_ballot?_eq_none hballot]
      exact .refl hballot ledger
  | some ballot =>
      obtain ⟨validator, -, hrules, hcast⟩ := h.ballot?_eq_some hballot
      exact .of_cast (by rw [hsynced]; rfl) hballot hrules (Ledger.isCast_cast? hcast)

end Round

end FinalityGadget
