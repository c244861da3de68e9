import FinalityGadget.Gadget
import FinalityGadget.Proofs.Round
import FinalityGadget.Proofs.Window

/-!
# Runs

Headers are applied one after the other to the records of a state. What one round leaves behind is
what the next one reads, whatever else is written or committed in between.
-/

namespace FinalityGadget

/-- Two states that hold the same finality records. -/
structure View.SameRecords (v w : View) : Prop where
  ledger : v Ledger.key = w Ledger.key
  marker : v Finality.key = w Finality.key

namespace View.SameRecords

variable {v w : View}

theorem refl (v : View) : v.SameRecords v := ⟨rfl, rfl⟩

theorem load_eq (h : v.SameRecords w) : Ledger.load v = Ledger.load w := by
  unfold Ledger.load View.record?
  rw [h.ledger]

theorem marker_eq (h : v.SameRecords w) : Finality.marker v = Finality.marker w := by
  unfold Finality.marker View.record?
  rw [h.marker]

end View.SameRecords

/-- Rounds of `n` validators, one after the other, from a state without finality records. The window
and the registry of every round are arbitrary; `view` is the state after the last round. -/
inductive Run (n : Word) (genesis : Height) : (rounds : List Round) → (view : View) → Prop
  | start {view : View} (hledger : view Ledger.key = .ok none)
      (hmarker : view Finality.key = .ok none) : Run n genesis [] view
  | step {rounds : List Round} {view after : View} {r : Round} (hrun : Run n genesis rounds view)
      (hvalidators : r.finality.validators = n) (hgenesis : r.finality.genesis = genesis)
      (hbefore : r.view.SameRecords view) (hafter : after.SameRecords r.viewAfter) :
      Run n genesis (rounds ++ [r]) after

/-- The headers of the rounds that are accepted. -/
def acceptedHeaders (rounds : List Round) : List Header :=
  (rounds.filter Round.isAccepted).map Round.header

theorem mem_acceptedHeaders {rounds : List Round} {header : Header} :
    header ∈ acceptedHeaders rounds ↔ ∃ r ∈ rounds, r.isAccepted = true ∧ r.header = header := by
  simp [acceptedHeaders, and_assoc]

theorem acceptedHeaders_concat (rounds : List Round) (r : Round) :
    acceptedHeaders (rounds ++ [r]) =
      acceptedHeaders rounds ++ if r.isAccepted then [r.header] else [] := by
  unfold acceptedHeaders
  cases h : r.isAccepted <;> simp [h]

theorem acceptedHeaders_append (rounds rest : List Round) :
    acceptedHeaders (rounds ++ rest) = acceptedHeaders rounds ++ acceptedHeaders rest := by
  simp [acceptedHeaders]

theorem Run.exists_before {n : Word} {genesis : Height} {rounds : List Round} {view : View}
    (hrun : Run n genesis rounds view) {r : Round} (hr : r ∈ rounds) :
    ∃ earlier later before, rounds = earlier ++ [r] ++ later ∧ Run n genesis earlier before ∧
      r.finality.validators = n ∧ r.finality.genesis = genesis ∧ r.view.SameRecords before := by
  induction hrun with
  | start => simp at hr
  | @step rounds view after last hrun hn hgenesis hbefore hafter ih =>
      rcases List.mem_append.mp hr with hold | hlast
      · obtain ⟨earlier, later, before, rfl, hstep⟩ := ih hold
        exact ⟨earlier, later ++ [last], before, by simp, hstep⟩
      · obtain rfl := List.mem_singleton.mp hlast
        exact ⟨rounds, [], view, by simp, hrun, hn, hgenesis, hbefore⟩

/-- A gadget together with the state of the block that it works on. -/
structure Node where
  gadget : Gadget
  store : Store
  db : Database

namespace Node

/-- What the state of the current block reads. -/
def view (node : Node) : View := node.store.view node.db

/-- What applying a header to the state of a node is about. -/
def round (node : Node) (header : Header) : Round :=
  ⟨node.gadget.finality, header, node.store, node.db, node.gadget.registry⟩

def next (node : Node) (header : Header) : Node :=
  let application := node.gadget.apply header node.store node.db
  { node with gadget := application.gadget, store := application.store }

def run (node : Node) (headers : List Header) : Node := headers.foldl next node

/-- The rounds in which headers are applied one after the other. -/
def rounds (node : Node) : (headers : List Header) → List Round
  | [] => []
  | header :: rest => node.round header :: (node.next header).rounds rest

/-- The headers of a list that are accepted when they are applied one after the other. -/
def accepted (node : Node) (headers : List Header) : List Header :=
  acceptedHeaders (node.rounds headers)

theorem verdict_apply (node : Node) (header : Header) :
    (node.gadget.apply header node.store node.db).verdict =
      (node.round header).addition.verdict := by
  show (node.gadget.apply header node.store node.db).verdict =
    (node.gadget.finality.add header node.store node.db node.gadget.registry).verdict
  unfold Gadget.apply
  cases hverdict :
    (node.gadget.finality.add header node.store node.db node.gadget.registry).verdict with
  | rejected e => simp [hverdict]
  | overflowed => simp [hverdict]
  | accepted advanced => cases advanced <;> simp [hverdict]

/-- No finality records are written yet, and no headers retained. -/
structure IsFresh (node : Node) : Prop where
  ledger : node.store.view node.db Ledger.key = .ok none
  marker : node.store.view node.db Finality.key = .ok none
  headers : node.store.headers = node.gadget.newWindow

/-- A node of `n` validators with an empty storage and fixed members. -/
def start (n : Word) (hn : 0 < n) (genesis : Height) (members : List Validator) : Node where
  gadget :=
    { config := ⟨n, genesis, .default⟩
      registry := .fixed members
      finality := ⟨n, hn, genesis, genesis, genesis⟩
      slots := ⟨0, 10, by decide⟩
      observers := [] }
  store := .ofHeaders (.empty (Word.satMul n 5).toNat)
  db := .empty

theorem isFresh_start {n : Word} {hn : 0 < n} {genesis : Height} {members : List Validator} :
    (start n hn genesis members).IsFresh := by
  have hempty : ∀ key, (start n hn genesis members).store.view .empty key = .ok none := by
    intro key
    simp [start, Store.view, Store.ofHeaders, Database.view, Database.empty]
  exact ⟨hempty _, hempty _, rfl⟩

variable {node : Node} {headers : List Header} {header : Header}

theorem run_concat : node.run (headers ++ [header]) = (node.run headers).next header := by
  simp [run]

theorem rounds_append {rest : List Header} :
    node.rounds (headers ++ rest) = node.rounds headers ++ (node.run headers).rounds rest := by
  induction headers generalizing node with
  | nil => rfl
  | cons first later ih =>
      show node.round first :: (node.next first).rounds (later ++ rest) = _
      rw [ih]
      rfl

theorem rounds_concat :
    node.rounds (headers ++ [header]) =
      node.rounds headers ++ [(node.run headers).round header] := rounds_append

theorem accepted_append {rest : List Header} :
    node.accepted (headers ++ rest) =
      node.accepted headers ++ (node.run headers).accepted rest := by
  unfold accepted
  rw [rounds_append, acceptedHeaders_append]

theorem exists_split_of_rounds {earlier later : List Round} {r : Round}
    (hrounds : node.rounds headers = earlier ++ r :: later) :
    ∃ before header after, headers = before ++ header :: after ∧ node.rounds before = earlier ∧
      r = (node.run before).round header := by
  induction headers generalizing node earlier with
  | nil => simp [rounds] at hrounds
  | cons first rest ih =>
      have hcons : node.round first :: (node.next first).rounds rest = earlier ++ r :: later :=
        hrounds
      cases earlier with
      | nil => exact ⟨[], first, rest, rfl, rfl, (List.cons.inj hcons).1.symm⟩
      | cons head earlier =>
          obtain ⟨hhead, hrest⟩ := List.cons.inj hcons
          obtain ⟨before, header, after, rfl, hbefore, hr⟩ := ih hrest
          refine ⟨first :: before, header, after, rfl, ?_, hr⟩
          show node.round first :: (node.next first).rounds before = _
          rw [hhead, hbefore]

theorem accepted_concat :
    node.accepted (headers ++ [header]) = node.accepted headers ++
      if ((node.run headers).round header).isAccepted then [header] else [] := by
  unfold accepted
  rw [rounds_concat, acceptedHeaders_concat]
  rfl

/-! ## One step -/

theorem next_of_accepted (haccepted : (node.round header).isAccepted = true) :
    (node.next header).gadget.finality = (node.round header).addition.finality ∧
      (node.next header).store = (node.round header).addition.store.appendHeader header := by
  unfold next Gadget.apply
  unfold Round.isAccepted at haccepted
  cases hverdict : (node.round header).addition.verdict with
  | rejected e => simp [hverdict] at haccepted
  | overflowed => simp [hverdict] at haccepted
  | accepted advanced =>
      have hadd :
          (node.gadget.finality.add header node.store node.db node.gadget.registry).verdict =
            .accepted advanced := hverdict
      simp only [hadd]
      cases advanced <;> exact ⟨rfl, rfl⟩

theorem next_of_not_accepted (hnot : (node.round header).isAccepted = false) :
    (node.next header).gadget.finality = node.gadget.finality ∧
      (node.next header).store = node.store := by
  obtain ⟨hstore, hfinality⟩ := Round.unchanged_of_not_accepted hnot
  unfold next Gadget.apply
  unfold Round.isAccepted at hnot
  cases hverdict : (node.round header).addition.verdict with
  | accepted advanced => simp [hverdict] at hnot
  | rejected e =>
      have hadd :
          (node.gadget.finality.add header node.store node.db node.gadget.registry).verdict =
            .rejected e := hverdict
      simp only [hadd]
      exact ⟨hfinality, rfl⟩
  | overflowed =>
      have hadd :
          (node.gadget.finality.add header node.store node.db node.gadget.registry).verdict =
            .overflowed := hverdict
      simp only [hadd]
      exact ⟨hfinality, hstore⟩

theorem next_registry : (node.next header).gadget.registry = node.gadget.registry := by
  unfold next Gadget.apply
  simp only
  split
  · rfl
  · rfl
  · split <;> rfl

theorem next_db : (node.next header).db = node.db := rfl

theorem headers_next :
    (node.next header).store.headers =
      if (node.round header).isAccepted then node.store.headers.insert header
      else node.store.headers := by
  cases haccepted : (node.round header).isAccepted with
  | false =>
      rw [(next_of_not_accepted haccepted).2]
      rfl
  | true =>
      obtain ⟨synced, ledger, validators, counted, pruned, happlied⟩ :=
        Round.isAccepted_iff.mp haccepted
      rw [(next_of_accepted haccepted).2, happlied.addition_eq.2.2, if_pos rfl]
      unfold Store.appendHeader
      rw [Finality.headers_record]
      rfl

theorem view_next : (node.next header).store.view node.db = (node.round header).viewAfter := by
  cases haccepted : (node.round header).isAccepted with
  | true =>
      rw [(next_of_accepted haccepted).2]
      rfl
  | false =>
      rw [(next_of_not_accepted haccepted).2]
      unfold Round.viewAfter
      rw [(Round.unchanged_of_not_accepted haccepted).1]
      rfl

theorem parameters_next :
    (node.next header).gadget.finality.validators = node.gadget.finality.validators ∧
      (node.next header).gadget.finality.genesis = node.gadget.finality.genesis := by
  cases haccepted : (node.round header).isAccepted with
  | false =>
      rw [(next_of_not_accepted haccepted).1]
      exact ⟨rfl, rfl⟩
  | true =>
      obtain ⟨synced, ledger, validators, counted, pruned, happlied⟩ :=
        Round.isAccepted_iff.mp haccepted
      obtain ⟨-, m, -, hsynced⟩ := Finality.read_eq_ok_iff.mp happlied.read
      have hparameters := Finality.parameters_advance synced counted
      rw [(next_of_accepted haccepted).1, happlied.addition_eq.2.1, hparameters.1, hparameters.2,
        hsynced]
      exact ⟨rfl, rfl⟩

/-! ## Whole runs -/

theorem run_registry : (node.run headers).gadget.registry = node.gadget.registry := by
  induction headers using List.reverseRecOn with
  | nil => rfl
  | append_singleton headers header ih => rw [run_concat, next_registry, ih]

theorem run_db : (node.run headers).db = node.db := by
  induction headers using List.reverseRecOn with
  | nil => rfl
  | append_singleton headers header ih => rw [run_concat, next_db, ih]

theorem view_round :
    ((node.run headers).round header).view = (node.run headers).store.view node.db := by
  show (node.run headers).store.view (node.run headers).db = _
  rw [run_db]

theorem parameters_run :
    (node.run headers).gadget.finality.validators = node.gadget.finality.validators ∧
      (node.run headers).gadget.finality.genesis = node.gadget.finality.genesis := by
  induction headers using List.reverseRecOn with
  | nil => exact ⟨rfl, rfl⟩
  | append_singleton headers header ih =>
      rw [run_concat, parameters_next.1, parameters_next.2]
      exact ih

theorem registry_of_mem_rounds {r : Round} (hr : r ∈ node.rounds headers) :
    r.registry = node.gadget.registry := by
  induction headers generalizing node with
  | nil => simp [rounds] at hr
  | cons first rest ih =>
      rcases List.mem_cons.mp hr with rfl | hrest
      · rfl
      · rw [ih hrest, next_registry]

/-- Applying headers through the gadget is a run. -/
theorem isRun (hfresh : node.IsFresh) (headers : List Header) :
    Run node.gadget.finality.validators node.gadget.finality.genesis (node.rounds headers)
      ((node.run headers).store.view node.db) := by
  induction headers using List.reverseRecOn with
  | nil => exact .start hfresh.ledger hfresh.marker
  | append_singleton headers header ih =>
      rw [rounds_concat, run_concat]
      have hview : ((node.run headers).next header).store.view node.db =
          ((node.run headers).round header).viewAfter := by
        rw [← view_next, run_db]
      refine .step ih parameters_run.1 parameters_run.2 ?_ (hview ▸ .refl _)
      rw [view_round]
      exact .refl _

theorem mem_accepted_of_retained (hfresh : node.IsFresh) {h : Header}
    (hmem : h ∈ (node.run headers).store.headers.headers) : h ∈ node.accepted headers := by
  induction headers using List.reverseRecOn with
  | nil =>
      have hempty : (node.run []).store.headers = node.gadget.newWindow := hfresh.headers
      rw [hempty] at hmem
      simp [Gadget.newWindow, Window.empty] at hmem
  | append_singleton headers header ih =>
      rw [run_concat] at hmem
      rw [accepted_concat, List.mem_append]
      cases haccepted : ((node.run headers).round header).isAccepted with
      | false =>
          rw [(next_of_not_accepted haccepted).2] at hmem
          exact .inl (ih hmem)
      | true =>
          rw [headers_next, if_pos haccepted] at hmem
          rcases Window.mem_insert hmem with rfl | hold
          · exact .inr List.mem_cons_self
          · exact .inl (ih hold)

theorem mem_accepted_of_mem_rounds (hfresh : node.IsFresh) {r : Round}
    (hr : r ∈ node.rounds headers) {h : Header} (hmem : h ∈ r.store.headers.headers) :
    h ∈ node.accepted headers := by
  induction headers using List.reverseRecOn with
  | nil => simp [rounds] at hr
  | append_singleton headers header ih =>
      rw [accepted_concat]
      rw [rounds_concat] at hr
      rcases List.mem_append.mp hr with hold | hlast
      · exact List.mem_append_left _ (ih hold)
      · rw [List.mem_singleton.mp hlast] at hmem
        exact List.mem_append_left _ (mem_accepted_of_retained hfresh hmem)

end Node

end FinalityGadget
