import FinalityGadget.Proofs.Run

/-!
# What applying a header changes

A header that is turned down leaves a count of it and a report behind, and nothing else. One that is
accepted joins the recent headers, and the records of the gadget are written; every other key of the
state reads as before.
-/

namespace FinalityGadget

/-- Whether a signal may change what a gauge shows. -/
def Signal.touchesGauge : Signal → Bool
  | .registerGauge _ | .set _ _ => true
  | _ => false

theorem Signal.gauges_record {m : Metrics} {s : Signal} (hs : s.touchesGauge = false) :
    (record m s).gauges = m.gauges := by
  cases s with
  | registerGauge g => simp [touchesGauge] at hs
  | set g value => simp [touchesGauge] at hs
  | event e => rfl
  | registerCounter c => rfl
  | increment c amount => rfl

namespace Metrics

/-- The metrics after some signals. -/
def after (m : Metrics) (signals : List Signal) : Metrics := signals.foldl Signal.record m

theorem gauges_after {m : Metrics} {signals : List Signal}
    (hsignals : ∀ s ∈ signals, s.touchesGauge = false) : (m.after signals).gauges = m.gauges := by
  induction signals generalizing m with
  | nil => rfl
  | cons s rest ih =>
      show ((Signal.record m s).after rest).gauges = m.gauges
      rw [ih fun t ht => hsignals t (List.mem_cons_of_mem _ ht)]
      exact Signal.gauges_record (hsignals s List.mem_cons_self)

end Metrics

namespace Finality

variable {f : Finality} {advanced : Bool} {ledger : Ledger} {store : Store} {db : Database}

theorem view_record {key : Key} (hledger : key ≠ Ledger.key)
    (hmarker : advanced = true → key ≠ Finality.key) :
    (f.record advanced ledger store).view db key = store.view db key := by
  rw [view_record_eq, if_neg fun h => hmarker h.1 h.2.symm, if_neg hledger.symm]

end Finality

namespace Gadget

namespace Application

/-- The gadget with its observers, the state of the block and the gauges are as they were. -/
structure ChangesNothing (a : Application) (g : Gadget) (store : Store) : Prop where
  gadget : a.gadget = g
  store : a.store = store
  gauges : ∀ m : Metrics, (m.after a.signals).gauges = m.gauges

/-- Of the state of the block, only the records of the gadget and the recent headers are written,
the finalized height among the records only if it advanced. -/
structure ChangesRecords (a : Application) (header : Header) (store : Store) (db : Database)
    (advanced : Option Height) : Prop where
  others : ∀ key, key ≠ Ledger.key → key ≠ Finality.key →
    a.store.view db key = store.view db key
  marker : advanced = none → a.store.view db Finality.key = store.view db Finality.key
  headers : a.store.headers = store.headers.insert header

end Application

variable {g : Gadget} {header : Header} {store : Store} {db : Database}

theorem changesNothing_apply
    (hnot : Round.isAccepted ⟨g.finality, header, store, db, g.registry⟩ = false) :
    (g.apply header store db).ChangesNothing g store := by
  obtain ⟨hstore, hfinality⟩ := Round.unchanged_of_not_accepted hnot
  replace hstore : (g.finality.add header store db g.registry).store = store := hstore
  replace hfinality : (g.finality.add header store db g.registry).finality = g.finality := hfinality
  unfold Round.isAccepted Round.addition at hnot
  cases hverdict : (g.finality.add header store db g.registry).verdict with
  | accepted advanced => simp [hverdict] at hnot
  | rejected e =>
      refine ⟨by simp [apply, hverdict, hfinality], ?_, fun m => Metrics.gauges_after ?_⟩
      · simp [apply, hverdict, Store.restore_snapshot]
      · intro s hs
        simp only [apply, hverdict, List.mem_append, List.mem_map, List.mem_cons,
          List.not_mem_nil, or_false] at hs
        obtain ⟨event, -, rfl⟩ | rfl | rfl := hs
        · rfl
        · rfl
        · rfl
  | overflowed =>
      refine ⟨by simp [apply, hverdict, hfinality], ?_, fun m => Metrics.gauges_after ?_⟩
      · simp [apply, hverdict, hstore]
      · intro s hs
        simp only [apply, hverdict, List.mem_map] at hs
        obtain ⟨event, -, rfl⟩ := hs
        rfl

theorem changesRecords_apply {advanced : Option Height}
    (hverdict : (g.finality.add header store db g.registry).verdict = .accepted advanced) :
    (g.apply header store db).ChangesRecords header store db advanced := by
  let r : Round := ⟨g.finality, header, store, db, g.registry⟩
  have hr : r.addition.verdict = .accepted advanced := hverdict
  have haccepted : r.isAccepted = true := by
    unfold Round.isAccepted
    rw [hr]
  obtain ⟨synced, ledger, validators, counted, pruned, happlied⟩ :=
    Round.isAccepted_iff.mp haccepted
  obtain ⟨hadvanced, -, hrecord⟩ := happlied.addition_eq
  have hnode : (Node.round ⟨g, store, db⟩ header).isAccepted = true := haccepted
  have hstore : (g.apply header store db).store = r.addition.store.appendHeader header :=
    (Node.next_of_accepted hnode).2
  have hview : ∀ key, (g.apply header store db).store.view db key =
      ((synced.advance counted).2.record (synced.advance counted).1 pruned store).view db key := by
    intro key
    rw [hstore, hrecord]
    rfl
  refine ⟨fun key hledger hmarker => ?_, fun hnone => ?_, ?_⟩
  · rw [hview]
    exact Finality.view_record hledger fun _ => hmarker
  · have hstays : (synced.advance counted).1 = false := by
      rw [hr, hnone] at hadvanced
      simpa using hadvanced
    rw [hview]
    refine Finality.view_record Ledger.key_ne_key.symm fun htrue => ?_
    rw [hstays] at htrue
    simp at htrue
  · rw [hstore, hrecord]
    show ((synced.advance counted).2.record _ pruned store).headers.insert header = _
    rw [Finality.headers_record]

/-- A header that is not accepted changes nothing, wherever it fails; one that is accepted changes
the records of the gadget and the recent headers only. -/
theorem apply_changes (g : Gadget) (header : Header) (store : Store) (db : Database) :
    let addition := g.finality.add header store db g.registry
    let application := g.apply header store db
    application.verdict = addition.verdict ∧
      match application.verdict with
      | .accepted advanced => application.ChangesRecords header store db advanced
      | .rejected _ | .overflowed =>
        application.ChangesNothing g store ∧ addition.finality = g.finality ∧
          addition.store = store := by
  intro addition application
  let r : Round := ⟨g.finality, header, store, db, g.registry⟩
  have hsame : application.verdict = addition.verdict :=
    Node.verdict_apply ⟨g, store, db⟩ header
  have hnothing : r.isAccepted = false → application.ChangesNothing g store ∧
      addition.finality = g.finality ∧ addition.store = store := by
    intro hnot
    obtain ⟨hstore, hfinality⟩ := Round.unchanged_of_not_accepted hnot
    exact ⟨changesNothing_apply hnot, hfinality, hstore⟩
  refine ⟨hsame, ?_⟩
  rw [hsame]
  cases hverdict : addition.verdict with
  | accepted advanced => exact changesRecords_apply hverdict
  | rejected e =>
      have hr : r.addition.verdict = .rejected e := hverdict
      exact hnothing (by simp [Round.isAccepted, hr])
  | overflowed =>
      have hr : r.addition.verdict = .overflowed := hverdict
      exact hnothing (by simp [Round.isAccepted, hr])

/-- The same header before an undecodable ledger and before an empty storage. -/
theorem apply_changes_of_undecodable :
    let g := (Node.start 1 (by decide) 0 [⟨.ofNat 1, true, 0⟩]).gadget
    let header : Header := ⟨1, .ofNat 1, .ofNat 0, .ofNat 1, 0, 0, 0, 0⟩
    let store := Store.ofHeaders g.newWindow
    let undecodable : Database := ⟨Std.ExtTreeMap.ofList [(Ledger.key, ([1] : Value))], false⟩
    (g.apply header store undecodable).verdict = .rejected (.undecodable .endOfInput) ∧
      (g.apply header store undecodable).ChangesNothing g store ∧
      (g.apply header store .empty).verdict = .accepted none ∧
      (g.apply header store .empty).ChangesRecords header store .empty none := by
  intro g header store undecodable
  have hrejected : (g.apply header store undecodable).verdict =
      .rejected (.undecodable .endOfInput) := by cbv
  have haccepted : (g.apply header store .empty).verdict = .accepted none := by cbv
  have hnothing := (apply_changes g header store undecodable).2
  have hrecords := (apply_changes g header store .empty).2
  rw [hrejected] at hnothing
  rw [haccepted] at hrecords
  exact ⟨hrejected, hnothing.1, haccepted, hrecords⟩

end Gadget

end FinalityGadget
