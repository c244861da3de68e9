import FinalityGadget.Proofs.HighestHeaders
import FinalityGadget.Proofs.Run

/-!
# Verifying and applying

Verifying a header and applying it read the same records and make the same checks. A verified header
can only fail in the registry, or at a tally that is full. The claimed prevoted height is checked
once the window holds as many headers as a header reaches down; a window that was handed on from
round to round holds as many headers as heights were accepted, up to its capacity, and so stays
that full.
-/

namespace FinalityGadget

/-! ## Windows that are handed on -/

/-- The heights of the accepted headers, each once. -/
def acceptedHeights (rounds : List Round) : Finset Height :=
  ((acceptedHeaders rounds).map Header.height).toFinset

/-- Each round leaves its window to the next one; the first window is empty. The heights, the
records and the registry of every round are arbitrary. -/
inductive HandsOn (capacity : Nat) : (rounds : List Round) → (last : Window) → Prop
  | start : HandsOn capacity [] (.empty capacity)
  | step {rounds : List Round} {r : Round} (hhands : HandsOn capacity rounds r.store.headers) :
      HandsOn capacity (rounds ++ [r])
        (if r.isAccepted then r.store.headers.insert r.header else r.store.headers)

namespace HandsOn

variable {capacity : Nat} {rounds : List Round} {last : Window}

theorem eq_ofInserted (h : HandsOn capacity rounds last) :
    last = Window.ofInserted capacity (acceptedHeaders rounds) := by
  induction h with
  | start => rfl
  | @step rounds r hhands ih =>
      rw [acceptedHeaders_concat]
      cases r.isAccepted with
      | false => simpa using ih
      | true =>
          simp only [if_true]
          rw [Window.ofInserted_concat, ← ih]

theorem size_eq (h : HandsOn capacity rounds last) :
    last.size = min capacity (acceptedHeights rounds).card := by
  rw [h.eq_ofInserted]
  exact Window.size_ofInserted capacity (acceptedHeaders rounds)

end HandsOn

theorem Node.handsOn_run {node : Node} (hwindow : node.store.headers = node.gadget.newWindow)
    (headers : List Header) :
    HandsOn node.gadget.finality.retained.toNat (node.rounds headers)
      (node.run headers).store.headers := by
  induction headers using List.reverseRecOn with
  | nil =>
      show HandsOn _ [] node.store.headers
      rw [hwindow]
      exact .start
  | append_singleton headers header ih =>
      rw [rounds_concat, run_concat, headers_next]
      exact .step (r := (node.run headers).round header) ih

/-! ## Votes that cannot be counted -/

namespace VotingRules

variable {rules : VotingRules} {header : Header} {ledger : Ledger} {validators : List Validator}
  {headers : Window}

/-- A header has a vote for a height whose tally has no room for it. -/
def VotesForFull (rules : VotingRules) (header : Header) (ledger : Ledger)
    (validators : List Validator) (headers : Window) : Prop :=
  ∃ validator ballot kind h, voter header validators = .ok validator ∧
    rules.ballot? header validator ledger headers = some ballot ∧ h ∈ ballot.votes kind ∧
    ((ledger.tally h).votes kind).toNat = Word.maxNat

theorem ledger?_count_eq_none_iff :
    (rules.count header ledger validators headers).ledger? ledger = none ↔
      rules.VotesForFull header ledger validators headers := by
  unfold count
  cases hvoter : voter header validators with
  | error reason =>
      simp only [Counting.ledger?, reduceCtorEq, false_iff]
      rintro ⟨validator, _, _, _, hother, -⟩
      rw [hvoter] at hother
      simp at hother
  | ok validator =>
      obtain ⟨ballot, hballot⟩ :
          ∃ ballot, rules.ballot? header validator ledger headers = some ballot :=
        ballot?_isSome (voter_eq_ok hvoter).1
      have hcount : ∀ kind, ∀ h ∈ ballot.votes kind, (ballot.votes kind).count h = 1 :=
        fun kind h hh => List.count_eq_one_of_mem (ascending_votes hballot kind).nodup hh
      simp only [hballot]
      cases hcast : ledger.cast? header.generator ballot with
      | none =>
          simp only [Counting.ledger?, true_iff]
          by_contra hroom
          have hall : ∀ kind, ∀ h ∈ ballot.votes kind,
              ((ledger.tally h).votes kind).toNat + (ballot.votes kind).count h ≤ Word.maxNat := by
            intro kind h hh
            have hle := Word.toNat_le ((ledger.tally h).votes kind)
            have hne : ((ledger.tally h).votes kind).toNat ≠ Word.maxNat :=
              fun hfull => hroom ⟨validator, ballot, kind, h, hvoter, hballot, hh, hfull⟩
            rw [hcount kind h hh]
            omega
          obtain ⟨after, hafter⟩ : ∃ after, ledger.cast? header.generator ballot = some after :=
            Ledger.cast?_isSome hall
          rw [hcast] at hafter
          simp at hafter
      | some counted =>
          simp only [Counting.ledger?, reduceCtorEq, false_iff]
          rintro ⟨other, cast, kind, h, hother, hcastBallot, hh, hfull⟩
          obtain rfl : validator = other := Except.ok.inj (hvoter.symm.trans hother)
          obtain rfl : ballot = cast := Option.some.inj (hballot.symm.trans hcastBallot)
          have hvotes := (Ledger.isCast_cast? hcast).votes kind h
          have hle := Word.toNat_le ((counted.tally h).votes kind)
          rw [hcount kind h hh] at hvotes
          omega

end VotingRules

/-! ## One header -/

namespace Finality

variable {f : Finality} {header : Header} {store : Store} {db : Database} {registry : Registry}

theorem verify_eq_ok_iff :
    f.verify header store db = .ok () ↔
      ∃ synced ledger, f.read (store.view db) = .ok (synced, ledger) ∧
        synced.check header store.headers = .ok () := by
  unfold verify
  rw [bind_eq_ok_iff]
  exact ⟨fun ⟨⟨synced, ledger⟩, h⟩ => ⟨synced, ledger, h⟩, fun ⟨synced, ledger, h⟩ => ⟨_, h⟩⟩

theorem prepare_of_verify_eq_error {e : Error} (hverify : f.verify header store db = .error e) :
    f.prepare header store db registry = .error e := by
  unfold verify at hverify
  unfold prepare
  cases hread : f.read (store.view db) with
  | error e' => simpa [hread, bind, Except.bind] using hverify
  | ok records =>
      cases hcheck : records.1.check header store.headers with
      | error e' => simpa [hread, hcheck, bind, Except.bind] using hverify
      | ok _ => simp [hread, hcheck, bind, Except.bind] at hverify

theorem prepare_of_registry_eq_error {e : Error} (hverify : f.verify header store db = .ok ())
    (hregistry : registry (store.view db) = .error e) :
    f.prepare header store db registry = .error e := by
  obtain ⟨synced, ledger, hread, hcheck⟩ := verify_eq_ok_iff.mp hverify
  unfold prepare
  simp [hread, hcheck, hregistry, bind, Except.bind]

theorem rules_ofRecords (m : Option Height) (ledger : Ledger) :
    (f.ofRecords m ledger).rules = f.rules := rfl

end Finality

namespace Gadget

/-- How applying a header to a state ends, given how verifying it ends. -/
structure Agrees (g : Gadget) (header : Header) (store : Store) (db : Database) : Prop where
  failed : ∀ e, g.verify header store db = .error e →
    (g.apply header store db).verdict = .rejected e
  unregistered : g.verify header store db = .ok () → ∀ e, g.registry (store.view db) = .error e →
    (g.apply header store db).verdict = .rejected e
  registered : g.verify header store db = .ok () →
    ∀ validators, g.registry (store.view db) = .ok validators →
      ∃ ledger, Ledger.load (store.view db) = .ok ledger ∧
        ((∃ advanced, (g.apply header store db).verdict = .accepted advanced) ↔
          ¬ g.finality.rules.VotesForFull header ledger validators store.headers) ∧
        (g.finality.rules.VotesForFull header ledger validators store.headers →
          (g.apply header store db).verdict = .overflowed)

/-- What a header claims as the highest prevoted height is checked against the state. -/
structure ChecksClaim (g : Gadget) (header : Header) (store : Store) (db : Database) : Prop where
  accepted : ∀ advanced, (g.apply header store db).verdict = .accepted advanced →
    g.prevotedOf (store.view db) = .ok header.prevoted
  wrong : ∀ prevoted, g.prevotedOf (store.view db) = .ok prevoted → header.prevoted ≠ prevoted →
    g.verify header store db = .error (.wrongPrevoted header.id prevoted header.prevoted) ∧
      (g.apply header store db).verdict =
        .rejected (.wrongPrevoted header.id prevoted header.prevoted)
  unread : ∀ e, g.prevotedOf (store.view db) = .error e →
    g.verify header store db = .error e ∧ (g.apply header store db).verdict = .rejected e

variable {g : Gadget} {header : Header} {store : Store} {db : Database}

theorem verdict_of_prepare {e : Error}
    (hprepare : g.finality.prepare header store db g.registry = .error e) :
    (g.apply header store db).verdict = .rejected e :=
  (Node.verdict_apply ⟨g, store, db⟩ header).trans
    (Round.verdict_of_prepare (r := ⟨g.finality, header, store, db, g.registry⟩) hprepare)

theorem verdict_of_verify_eq_error {e : Error} (hverify : g.verify header store db = .error e) :
    (g.apply header store db).verdict = .rejected e :=
  verdict_of_prepare (Finality.prepare_of_verify_eq_error hverify)

theorem agrees (g : Gadget) (header : Header) (store : Store) (db : Database) :
    g.Agrees header store db where
  failed e hverify := verdict_of_verify_eq_error hverify
  unregistered hverify e hregistry :=
    verdict_of_prepare (Finality.prepare_of_registry_eq_error hverify hregistry)
  registered hverify validators hregistry := by
    let r : Round := ⟨g.finality, header, store, db, g.registry⟩
    have hverdict : (g.apply header store db).verdict = r.addition.verdict :=
      Node.verdict_apply ⟨g, store, db⟩ header
    obtain ⟨synced, ledger, hread, hcheck⟩ := Finality.verify_eq_ok_iff.mp hverify
    obtain ⟨hload, m, -, rfl⟩ := Finality.read_eq_ok_iff.mp hread
    have hfull :
        (g.finality.rules.count header ledger validators store.headers).ledger? ledger = none ↔
          g.finality.rules.VotesForFull header ledger validators store.headers :=
      VotingRules.ledger?_count_eq_none_iff
    refine ⟨ledger, hload, ?_⟩
    rw [hverdict, ← hfull]
    cases hcounted :
      (g.finality.rules.count header ledger validators store.headers).ledger? ledger with
    | none =>
        have hprepare := Round.prepare_eq_ok_iff (r := r).mpr ⟨hread, hcheck, hregistry⟩
        have hoverflowed : r.addition.verdict = .overflowed := by
          unfold Round.addition Finality.add
          simp only [hprepare]
          rw [Finality.rules_ofRecords, hcounted]
        simp [hoverflowed]
    | some counted =>
        obtain ⟨pruned, hpruned⟩ := Ledger.prune?_isSome (l := counted) g.finality.retained_pos
        have happlied : r.IsApplied (g.finality.ofRecords m ledger) ledger validators counted
            pruned := ⟨hread, hcheck, hregistry, hcounted, hpruned⟩
        simp [happlied.addition_eq.1]

theorem checksClaim (hfull : g.finality.reach.toNat ≤ store.headers.size) :
    g.ChecksClaim header store db := by
  have hunread : ∀ e, g.prevotedOf (store.view db) = .error e →
      g.verify header store db = .error e := by
    intro e hprevoted
    unfold prevotedOf Finality.prevotedOf at hprevoted
    unfold verify Finality.verify
    cases hread : g.finality.read (store.view db) with
    | error e' => simpa [hread, bind, Except.bind] using hprevoted
    | ok records => simp [hread, bind, Except.bind, pure, Except.pure] at hprevoted
  have hwrong : ∀ prevoted, g.prevotedOf (store.view db) = .ok prevoted →
      header.prevoted ≠ prevoted →
      g.verify header store db = .error (.wrongPrevoted header.id prevoted header.prevoted) := by
    intro prevoted hprevoted hne
    obtain ⟨⟨synced, ledger⟩, hread, hsynced⟩ := bind_eq_ok_iff.mp hprevoted
    obtain rfl := Except.ok.inj hsynced
    obtain ⟨-, m, -, rfl⟩ := Finality.read_eq_ok_iff.mp hread
    unfold verify Finality.verify
    rw [hread]
    exact if_pos ⟨hfull, hne⟩
  refine ⟨fun advanced hadvanced => ?_, fun prevoted hprevoted hne => ?_, fun e hprevoted => ?_⟩
  · cases hprevoted : g.prevotedOf (store.view db) with
    | error e =>
        rw [verdict_of_verify_eq_error (hunread e hprevoted)] at hadvanced
        simp at hadvanced
    | ok prevoted =>
        by_cases hne : header.prevoted = prevoted
        · rw [hne]
        · rw [verdict_of_verify_eq_error (hwrong prevoted hprevoted hne)] at hadvanced
          simp at hadvanced
  · have hverify := hwrong prevoted hprevoted hne
    exact ⟨hverify, verdict_of_verify_eq_error hverify⟩
  · have hverify := hunread e hprevoted
    exact ⟨hverify, verdict_of_verify_eq_error hverify⟩

/-- Whatever a gadget has applied before, verifying and applying a header agree: both fail alike,
and a verified header is accepted unless the registry fails or a vote is for a full tally. The
claimed prevoted height has to be that of the state as soon as the window holds as many headers as
a header reaches down, which it does after that many headers of different heights. -/
theorem verify_apply_agree (g : Gadget) (header : Header) (store : Store) (db : Database) :
    g.Agrees header store db ∧
      g.finality.reach.toNat = min (g.finality.validators.toNat * 3) Word.maxNat - 1 ∧
      (g.finality.reach.toNat ≤ store.headers.size → g.ChecksClaim header store db) ∧
      ∀ rounds, HandsOn g.finality.retained.toNat rounds store.headers →
        g.finality.reach.toNat ≤ (acceptedHeights rounds).card →
          g.finality.reach.toNat ≤ store.headers.size ∧ g.ChecksClaim header store db := by
  refine ⟨agrees g header store db, g.finality.toNat_reach, checksClaim,
    fun rounds hhands hheights => ?_⟩
  have hcapacity := g.finality.reach_lt_retained
  have hfull : g.finality.reach.toNat ≤ store.headers.size := by
    rw [hhands.size_eq]
    omega
  exact ⟨hfull, checksClaim hfull⟩

/-- A single validator forged two blocks, both of them prevoted: the third header has to claim that
the second one is. -/
theorem verify_apply_agree_of_two :
    let node := Node.start 1 (by decide) 0 [⟨.ofNat 1, true, 0⟩]
    let headers : List Header :=
      [⟨1, .ofNat 1, .ofNat 0, .ofNat 1, 0, 0, 0, 0⟩, ⟨2, .ofNat 2, .ofNat 1, .ofNat 1, 0, 0, 1, 1⟩]
    let after := node.run headers
    let third : Header := ⟨3, .ofNat 3, .ofNat 2, .ofNat 1, 0, 0, 2, 1⟩
    node.accepted headers = headers ∧ after.gadget.prevotedOf after.view = .ok 2 ∧
      after.gadget.verify third after.store after.db = .error (.wrongPrevoted (.ofNat 3) 2 1) ∧
      (after.gadget.apply third after.store after.db).verdict =
        .rejected (.wrongPrevoted (.ofNat 3) 2 1) := by
  intro node headers after third
  have haccepted : node.accepted headers = headers := by cbv
  have hprevoted : after.gadget.prevotedOf after.view = .ok 2 := by cbv
  have hretained : after.gadget.finality.retained = node.gadget.finality.retained :=
    congrArg (Word.satMul · 5) Node.parameters_run.1
  have hhands : HandsOn after.gadget.finality.retained.toNat (node.rounds headers)
      after.store.headers := by
    rw [hretained]
    exact Node.handsOn_run rfl headers
  have hheights : acceptedHeights (node.rounds headers) = {1, 2} := by
    show ((node.accepted headers).map Header.height).toFinset = _
    rw [haccepted]
    rfl
  have hreach : after.gadget.finality.reach.toNat ≤
      (acceptedHeights (node.rounds headers)).card := by
    rw [hheights]
    cbv
  obtain ⟨-, -, -, hhanded⟩ := verify_apply_agree after.gadget third after.store after.db
  exact ⟨haccepted, hprevoted,
    (hhanded _ hhands hreach).2.wrong 2 hprevoted (by decide)⟩

/-- A full tally, which no run leaves behind: the header is verified and the registry answers, but
its vote cannot be counted. -/
theorem overflowed_of_verified :
    let members : List Validator := [⟨.ofNat 1, true, 0⟩, ⟨.ofNat 2, true, 0⟩]
    let node := Node.start 2 (by decide) 0 members
    let store := node.store.setLedger (Ledger.empty.setTally 1 ⟨0xFFFFFFFFFFFFFFFF, 0⟩)
    let header : Header := ⟨1, .ofNat 1, .ofNat 0, .ofNat 1, 0, 0, 0, 0⟩
    node.gadget.verify header store node.db = .ok () ∧
      node.gadget.registry (store.view node.db) = .ok members ∧
      (node.gadget.apply header store node.db).verdict = .overflowed := by
  intro members node store header
  have hverify : node.gadget.verify header store node.db = .ok () := by cbv
  have hoverflowed : (node.gadget.apply header store node.db).verdict = .overflowed := by cbv
  exact ⟨hverify, rfl, hoverflowed⟩

end Gadget

end FinalityGadget
