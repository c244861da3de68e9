import FinalityGadget.Proofs.Dependence

/-!
# Finality only advances

An accepted header raises the finalized height of its state to the highest height with a precommit
quorum, and writes it, if that is higher; it never lowers the heights that a validator voted for.
The heights that are returned therefore ascend, and an observer receives all of those that are
returned once it has subscribed.
-/

namespace FinalityGadget

namespace Finality

/-- The finalized height of a state. -/
def finalizedOf (f : Finality) (view : View) : Except Error Height := do
  return max ((← marker view).getD 0) f.genesis

variable {f : Finality} {view : View}

theorem finalizedOf_of_marker {m : Option Height} (hmarker : marker view = .ok m) :
    f.finalizedOf view = .ok (max (m.getD 0) f.genesis) := by
  unfold finalizedOf
  rw [hmarker]
  rfl

theorem genesis_le_finalizedOf {height : Height} (h : f.finalizedOf view = .ok height) :
    f.genesis.toNat ≤ height.toNat := by
  obtain ⟨m, -, hmax⟩ := bind_eq_ok_iff.mp h
  obtain rfl := Except.ok.inj hmax
  rw [Word.toNat_max]
  omega

theorem finalizedOf_congr {g : Finality} {v w : View} (hgenesis : f.genesis = g.genesis)
    (hmarker : v Finality.key = w Finality.key) : f.finalizedOf v = g.finalizedOf w := by
  unfold finalizedOf marker View.record?
  rw [hmarker, hgenesis]

theorem advance_fst_iff_lt {ledger : Ledger} :
    (f.advance ledger).1 = true ↔ f.finalized < (f.advance ledger).2.finalized := by
  constructor
  · exact fun hadvanced => (precommittedIn?_of_advance hadvanced).2
  · intro hlt
    by_contra hnot
    rw [finalized_advance_of_not (by simpa using hnot)] at hlt
    exact UInt64.lt_irrefl _ hlt

end Finality

/-- The height that a header advanced the finalized height to. -/
def Verdict.advanced? : Verdict → Option Height
  | .accepted advanced => advanced
  | _ => none

/-! ## One header -/

namespace Gadget

/-- What an accepted header makes of the records of its state. The finalized height rises from `old`
to `new`, and what was voted for from `before` to `after`. -/
structure Application.Advances (a : Application) (g : Gadget) (header : Header) (store : Store)
    (db : Database) (old new : Height) (before after : Ledger) : Prop where
  loaded : Ledger.load (store.view db) = .ok before
  finalized : g.finality.finalizedOf (store.view db) = .ok old
  finalized_after : g.finality.finalizedOf (a.store.view db) = .ok new
  /-- The quorum of a precommitted height counts before the ledger is pruned. -/
  counted : ∃ validators counted, g.registry (store.view db) = .ok validators ∧
    (g.finality.rules.count header before validators store.headers).ledger? before = some counted ∧
    new = max old ((g.finality.precommittedIn? counted).getD 0) ∧
    counted.prune? g.finality.retained = some after
  verdict : a.verdict = .accepted (if old < new then some new else none)
  marker : a.store.view db Finality.key =
    if old < new then .ok (some (Format.word.encode new)) else store.view db Finality.key
  written : a.store.view db Ledger.key = .ok (some (Ledger.format.encode after))
  /-- What is written is read back, if the length of what was there is a word. -/
  readable : (∀ value, store.view db Ledger.key = .ok (some value) →
    value.length ≤ Word.maxNat) → Ledger.load (a.store.view db) = .ok after
  votes : ∀ kind address,
    (before.votesOf address).highest kind ≤ (after.votesOf address).highest kind

end Gadget

namespace Round

variable {r : Round} {synced : Finality} {ledger counted pruned : Ledger}
  {validators : List Validator}

theorem IsApplied.size_voters_le (h : r.IsApplied synced ledger validators counted pruned) :
    pruned.voters.size ≤ ledger.voters.size + 1 := by
  have hsize := size_le_card_of_mem pruned.voters
    (insert r.header.generator ledger.voters.keys.toFinset) fun a ha => ?_
  · have hcard := Finset.card_insert_le r.header.generator ledger.voters.keys.toFinset
    have hkeys := List.toFinset_card_le ledger.voters.keys
    rw [Std.ExtTreeMap.length_keys] at hkeys
    omega
  · rw [(Ledger.isPruned_prune? h.prunes).voters] at ha
    rw [Finset.mem_insert, List.mem_toFinset, Std.ExtTreeMap.mem_keys]
    rcases h.counts_ledger.mem_voters a ha with hold | ⟨hgenerator, -⟩
    · exact .inr hold
    · exact .inl hgenerator

theorem IsApplied.load_of_length_le (h : r.IsApplied synced ledger validators counted pruned)
    (hlength : ∀ value, r.view Ledger.key = .ok (some value) → value.length ≤ Word.maxNat) :
    Ledger.load r.viewAfter = .ok pruned := by
  apply h.load_viewAfter
  have hgrown := h.size_voters_le
  have hload := (Finality.read_eq_ok_iff.mp h.read).1
  unfold Ledger.load View.record? at hload
  cases hvalue : r.view Ledger.key with
  | error e => simp [hvalue] at hload
  | ok stored =>
      cases stored with
      | none =>
          simp only [hvalue, Except.ok.injEq] at hload
          rw [← hload] at hgrown
          exact hgrown.trans (by decide)
      | some value =>
          cases hread : Ledger.format.read value with
          | error e => simp [hvalue, hread] at hload
          | ok stored =>
              simp only [hvalue, hread, Except.ok.injEq] at hload
              rw [hload] at hread
              have hfewer := Ledger.size_voters_lt hread
              have hbytes := hlength value hvalue
              omega

theorem advanced?_of_not_accepted (hnot : r.isAccepted = false) :
    r.addition.verdict.advanced? = none := by
  unfold isAccepted at hnot
  cases hverdict : r.addition.verdict with
  | accepted advanced => simp [hverdict] at hnot
  | rejected e => rfl
  | overflowed => rfl

theorem exists_verdict_of_accepted (haccepted : r.isAccepted = true) :
    ∃ advanced, r.addition.verdict = .accepted advanced := by
  unfold isAccepted at haccepted
  cases hverdict : r.addition.verdict with
  | accepted advanced => exact ⟨advanced, rfl⟩
  | rejected e => simp [hverdict] at haccepted
  | overflowed => simp [hverdict] at haccepted

end Round

namespace Gadget

theorem exists_advances {g : Gadget} {header : Header} {store : Store} {db : Database}
    {advanced : Option Height}
    (hverdict : (g.apply header store db).verdict = .accepted advanced) :
    ∃ old new before after,
      (g.apply header store db).Advances g header store db old new before after := by
  let node : Node := ⟨g, store, db⟩
  let r := node.round header
  have hsame : r.addition.verdict = .accepted advanced :=
    (node.verdict_apply header).symm.trans hverdict
  have haccepted : r.isAccepted = true := by
    unfold Round.isAccepted
    rw [hsame]
  obtain ⟨synced, before, validators, counted, after, happlied⟩ := Round.isAccepted_iff.mp haccepted
  obtain ⟨hload, m, hmarker, hsynced⟩ := Finality.read_eq_ok_iff.mp happlied.read
  have hview : (g.apply header store db).store.view db = r.viewAfter := node.view_next
  have hrule : synced.SameRule g.finality := Finality.sameRule_of_read happlied.read
  have hold : synced.finalized = max (m.getD 0) g.finality.genesis := by
    rw [hsynced]
    rfl
  have hnew : (synced.advance counted).2.finalized =
      max synced.finalized ((g.finality.precommittedIn? counted).getD 0) := by
    rw [← hrule.precommittedIn?_eq, ← UInt64.toNat_inj, Finality.toNat_finalized_advance,
      Word.toNat_max]
  exact ⟨synced.finalized, (synced.advance counted).2.finalized, before, after,
    { loaded := hload
      finalized := by
        rw [hold]
        exact Finality.finalizedOf_of_marker hmarker
      finalized_after := by
        obtain ⟨m', hmarkerAfter, hmax⟩ := happlied.exists_marker_viewAfter
        rw [hview, Finality.finalizedOf_of_marker hmarkerAfter]
        exact congrArg Except.ok hmax
      counted := by
        refine ⟨validators, counted, happlied.registered, ?_, hnew, happlied.prunes⟩
        rw [← hrule.rules_eq]
        exact happlied.counts
      verdict := by
        rw [node.verdict_apply header, happlied.addition_eq.1]
        simp only [Finality.advance_fst_iff_lt]
      marker := by
        rw [hview, happlied.viewAfter_marker]
        simp only [Finality.advance_fst_iff_lt]
        rfl
      written := by
        rw [hview]
        exact happlied.viewAfter_ledger
      readable := by
        rw [hview]
        exact happlied.load_of_length_le
      votes := by
        intro kind address
        rw [(Ledger.isPruned_prune? happlied.prunes).votesOf, UInt64.le_iff_toNat_le]
        exact happlied.counts_ledger.raised kind address }⟩

end Gadget

/-! ## Whole runs -/

/-- What may happen to a gadget and the state of a block, short of taking the state back. Others
write any key besides the one of the finalized height. -/
inductive Action
  | apply (header : Header)
  | subscribe
  | reload
  | write (key : Key) (value : Value) (hkey : key ≠ Finality.key)

namespace Node

/-- The height that an action returns, if it advanced the finalized height, and the node after. -/
def act (node : Node) : Action → Option Height × Node
  | .apply header =>
    ((node.gadget.apply header node.store node.db).verdict.advanced?, node.next header)
  | .subscribe => (none, { node with gadget := node.gadget.subscribe.2 })
  | .reload =>
    match node.gadget.reload node.view with
    | .ok gadget => (none, { node with gadget })
    | .error _ => (none, node)
  | .write key value _ => (none, { node with store := node.store.set key value })

def after (node : Node) (actions : List Action) : Node :=
  actions.foldl (fun node action => (node.act action).2) node

/-- The heights that actions return, one after the other. -/
def returned : Node → List Action → List Height
  | _, [] => []
  | node, action :: rest => (node.act action).1.toList ++ (node.act action).2.returned rest

/-- The finalized height of the current state. -/
def finalized (node : Node) : Except Error Height := node.gadget.finality.finalizedOf node.view

/-- The rule of the gadget starts from the genesis height that the gadget is configured with. -/
def IsConfigured (node : Node) : Prop :=
  node.gadget.config.genesis = node.gadget.finality.genesis

variable {node : Node} {action : Action}

theorem genesis_next (node : Node) (header : Header) :
    (node.next header).gadget.config = node.gadget.config ∧
      (node.next header).gadget.finality.genesis = node.gadget.finality.genesis := by
  refine ⟨(Gadget.gadget_apply _ _ _ _).1, ?_⟩
  have hrule := Finality.sameRule_add node.gadget.finality header node.store node.db
    node.gadget.registry
  rw [← hrule.genesis]
  exact congrArg Finality.genesis (Gadget.gadget_apply _ _ _ _).2.2

theorem genesis_act (h : node.IsConfigured) (action : Action) :
    (node.act action).2.IsConfigured ∧
      (node.act action).2.gadget.finality.genesis = node.gadget.finality.genesis := by
  cases action with
  | apply header =>
      obtain ⟨hconfig, hgenesis⟩ := node.genesis_next header
      refine ⟨?_, hgenesis⟩
      show (node.next header).gadget.config.genesis = (node.next header).gadget.finality.genesis
      rw [hconfig, hgenesis, h]
  | subscribe => exact ⟨h, rfl⟩
  | write key value hkey => exact ⟨h, rfl⟩
  | reload =>
      unfold act
      cases hreload : node.gadget.reload node.view with
      | error e => exact ⟨h, rfl⟩
      | ok gadget =>
          obtain ⟨finality, hload, hgadget⟩ := bind_eq_ok_iff.mp hreload
          obtain rfl := Except.ok.inj hgadget
          have hgenesis := (Finality.sameRule_of_load hload).2
          exact ⟨hgenesis.symm, hgenesis.trans h⟩

theorem act_cases (h : node.IsConfigured) (action : Action) :
    (node.act action).1 = none ∧ (node.act action).2.finalized = node.finalized ∨
      ∃ old new, (node.act action).1 = some new ∧ node.finalized = .ok old ∧
        (node.act action).2.finalized = .ok new ∧ old < new := by
  have hsame : (node.act action).2.view Finality.key = node.view Finality.key →
      (node.act action).2.finalized = node.finalized :=
    Finality.finalizedOf_congr (genesis_act h action).2
  cases action with
  | subscribe => exact .inl ⟨rfl, hsame rfl⟩
  | write key value hkey =>
      refine .inl ⟨rfl, hsame ?_⟩
      show (node.store.set key value).view node.db Finality.key = _
      rw [Store.view_set, if_neg hkey]
      rfl
  | reload =>
      left
      unfold act at hsame ⊢
      cases hreload : node.gadget.reload node.view with
      | error e => exact ⟨rfl, rfl⟩
      | ok gadget =>
          rw [hreload] at hsame
          exact ⟨rfl, hsame rfl⟩
  | apply header =>
      cases haccepted : (node.round header).isAccepted with
      | false =>
          refine .inl ⟨?_, hsame ?_⟩
          · show Verdict.advanced? _ = none
            rw [node.verdict_apply, Round.advanced?_of_not_accepted haccepted]
          · show (node.next header).store.view node.db Finality.key = _
            rw [(next_of_not_accepted haccepted).2]
            rfl
      | true =>
          obtain ⟨advanced, hverdict⟩ := Round.exists_verdict_of_accepted haccepted
          rw [← node.verdict_apply] at hverdict
          obtain ⟨old, new, before, after, hadvances⟩ := Gadget.exists_advances hverdict
          have hreturned : (node.act (.apply header)).1 = if old < new then some new else none := by
            show Verdict.advanced? _ = _
            rw [hadvances.verdict]
            rfl
          have hafter : (node.act (.apply header)).2.finalized = .ok new := by
            unfold finalized
            rw [← hadvances.finalized_after]
            exact Finality.finalizedOf_congr (node.genesis_next header).2 rfl
          by_cases hlt : old < new
          · rw [if_pos hlt] at hreturned
            exact .inr ⟨old, new, hreturned, hadvances.finalized, hafter, hlt⟩
          · rw [if_neg hlt] at hreturned
            have hmarker := hadvances.marker
            rw [if_neg hlt] at hmarker
            exact .inl ⟨hreturned, hsame hmarker⟩

theorem lt_of_mem_returned (h : node.IsConfigured) {actions : List Action} {height : Height}
    (hmem : height ∈ node.returned actions) : ∃ old, node.finalized = .ok old ∧ old < height := by
  induction actions generalizing node with
  | nil => simp [returned] at hmem
  | cons action rest ih =>
      have hnext := (genesis_act h action).1
      obtain ⟨hnone, hfinalized⟩ | ⟨old, new, hsome, hold, hnew, hlt⟩ := act_cases h action
      · rw [returned, hnone] at hmem
        rw [← hfinalized]
        exact ih hnext (by simpa using hmem)
      · rw [returned, hsome] at hmem
        refine ⟨old, hold, ?_⟩
        obtain rfl | hrest : height = new ∨ height ∈ (node.act action).2.returned rest := by
          simpa using hmem
        · exact hlt
        · obtain ⟨next, hfinalized, hle⟩ := ih hnext hrest
          obtain rfl := Except.ok.inj (hnew.symm.trans hfinalized)
          exact UInt64.lt_trans hlt hle

theorem pairwise_returned (h : node.IsConfigured) (actions : List Action) :
    (node.returned actions).Pairwise (· < ·) := by
  induction actions generalizing node with
  | nil => exact .nil
  | cons action rest ih =>
      have hnext := (genesis_act h action).1
      obtain ⟨hnone, -⟩ | ⟨old, new, hsome, -, hnew, -⟩ := act_cases h action
      · rw [returned, hnone]
        exact ih hnext
      · rw [returned, hsome]
        refine List.pairwise_cons.mpr ⟨fun height hmem => ?_, ih hnext⟩
        obtain ⟨next, hfinalized, hlt⟩ := lt_of_mem_returned hnext hmem
        obtain rfl := Except.ok.inj (hnew.symm.trans hfinalized)
        exact hlt

/-! ### Observers -/

theorem observers_act {i : Nat} {received : List Height}
    (hreceived : node.gadget.observers[i]? = some received) :
    (node.act action).2.gadget.observers[i]? = some (received ++ (node.act action).1.toList) := by
  cases action with
  | subscribe =>
      show (node.gadget.observers ++ [[]])[i]? = some (received ++ [])
      obtain ⟨hi, -⟩ := List.getElem?_eq_some_iff.mp hreceived
      rw [List.getElem?_append_left hi, hreceived, List.append_nil]
  | write key value hkey => simpa [act] using hreceived
  | reload =>
      unfold act
      cases hreload : node.gadget.reload node.view with
      | error e => simpa using hreceived
      | ok gadget =>
          obtain ⟨finality, hload, hgadget⟩ := bind_eq_ok_iff.mp hreload
          obtain rfl := Except.ok.inj hgadget
          simpa using hreceived
  | apply header =>
      show (node.gadget.apply header node.store node.db).gadget.observers[i]? =
        some (received ++ (node.gadget.apply header node.store node.db).verdict.advanced?.toList)
      cases hverdict :
        (node.gadget.finality.add header node.store node.db node.gadget.registry).verdict with
      | rejected e => simpa [Gadget.apply, hverdict, Verdict.advanced?] using hreceived
      | overflowed => simpa [Gadget.apply, hverdict, Verdict.advanced?] using hreceived
      | accepted advanced =>
          cases advanced with
          | none => simpa [Gadget.apply, hverdict, Verdict.advanced?] using hreceived
          | some height =>
              simp [Gadget.apply, hverdict, Verdict.advanced?, Gadget.notify, hreceived]

theorem observers_after {i : Nat} {received : List Height} {actions : List Action}
    (hreceived : node.gadget.observers[i]? = some received) :
    (node.after actions).gadget.observers[i]? = some (received ++ node.returned actions) := by
  induction actions generalizing node received with
  | nil => simpa [returned, after] using hreceived
  | cons action rest ih =>
      show ((node.act action).2.after rest).gadget.observers[i]? = _
      rw [ih (observers_act hreceived), returned, List.append_assoc]

theorem after_append (earlier later : List Action) :
    node.after (earlier ++ later) = (node.after earlier).after later := List.foldl_append

theorem returned_append (earlier later : List Action) :
    node.returned (earlier ++ later) =
      node.returned earlier ++ (node.after earlier).returned later := by
  induction earlier generalizing node with
  | nil => rfl
  | cons action rest ih =>
      show (node.act action).1.toList ++ (node.act action).2.returned (rest ++ later) = _
      rw [ih, ← List.append_assoc]
      rfl

/-- An accepted header takes the finalized height as far as the precommits counted with it reach,
returns it exactly if that is an advance, and lowers no vote height. Over a whole run the heights
that are returned ascend from the genesis height on, and an observer receives those that are
returned once it has subscribed. -/
theorem finality_advances (h : node.IsConfigured) :
    (∀ header advanced,
      (node.gadget.apply header node.store node.db).verdict = .accepted advanced →
        ∃ old new before after, (node.gadget.apply header node.store node.db).Advances node.gadget
          header node.store node.db old new before after) ∧
    (∀ actions, (node.returned actions).Pairwise (· < ·) ∧
      ∀ height ∈ node.returned actions, node.gadget.finality.genesis < height) ∧
    ∀ earlier later, ∃ received,
      node.returned (earlier ++ .subscribe :: later) = node.returned earlier ++ received ∧
        (node.after (earlier ++ .subscribe :: later)).gadget.observers[
          (node.after earlier).gadget.subscribe.1]? = some received := by
  refine ⟨fun _ _ hverdict => Gadget.exists_advances hverdict,
    fun actions => ⟨pairwise_returned h actions, fun height hmem => ?_⟩, fun earlier later => ?_⟩
  · obtain ⟨old, hfinalized, hlt⟩ := lt_of_mem_returned h hmem
    have hgenesis := Finality.genesis_le_finalizedOf hfinalized
    rw [UInt64.lt_iff_toNat_lt] at hlt ⊢
    omega
  · let subscribed := ((node.after earlier).act .subscribe).2
    have hnew : subscribed.gadget.observers[(node.after earlier).gadget.subscribe.1]? =
        some [] := by
      show ((node.after earlier).gadget.observers ++ [[]])[_]? = some []
      simp [Gadget.subscribe]
    refine ⟨subscribed.returned later, returned_append _ _, ?_⟩
    rw [after_append]
    exact observers_after hnew

set_option maxRecDepth 2000 in
/-- Three headers of a single validator, with an observer that subscribes after the second. -/
theorem finality_advances_of_three :
    let node := Node.start 1 (by decide) 0 [⟨.ofNat 1, true, 0⟩]
    let first : Header := ⟨1, .ofNat 1, .ofNat 0, .ofNat 1, 0, 0, 0, 0⟩
    let earlier : List Action :=
      [.apply first, .apply ⟨2, .ofNat 2, .ofNat 1, .ofNat 1, 10, 0, 1, 1⟩]
    let later : List Action := [.reload, .apply ⟨3, .ofNat 3, .ofNat 2, .ofNat 1, 20, 0, 2, 2⟩]
    node.returned (earlier ++ .subscribe :: later) = [1, 2] ∧
      (node.after (earlier ++ .subscribe :: later)).gadget.observers = [[2]] ∧
      (∃ old new before after, (node.gadget.apply first node.store node.db).Advances node.gadget
        first node.store node.db old new before after) ∧
      (node.returned (earlier ++ .subscribe :: later)).Pairwise (· < ·) := by
  intro node first earlier later
  have hconfigured : node.IsConfigured := rfl
  have haccepted : (node.gadget.apply first node.store node.db).verdict = .accepted none := by cbv
  obtain ⟨hone, hrun, -⟩ := finality_advances hconfigured
  exact ⟨by cbv, by cbv, hone first none haccepted, (hrun _).1⟩

end Node

end FinalityGadget
