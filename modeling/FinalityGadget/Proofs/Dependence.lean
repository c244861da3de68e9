import FinalityGadget.Proofs.Run

/-!
# What a header is judged by

Before a header is looked at, the heights that the gadget carries along are replaced by those that
follow from the records of its state. What verifying or applying the header comes to is therefore
decided by the parameters of the rule, the recent headers, the validators and the two records.
-/

namespace FinalityGadget

/-- Two views that cannot be told apart at some keys. -/
def View.AgreeOn (keys : Set Key) (v w : View) : Prop := ∀ key ∈ keys, v key = w key

/-- The keys that a registry consults are among the given ones. -/
def Registry.ReadsOnly (registry : Registry) (keys : Set Key) : Prop :=
  ∀ v w : View, v.AgreeOn keys w → registry v = registry w

/-- The keys that the gadget and its validators are stored at. -/
def recordKeys : Set Key := {Ledger.key, Finality.key, Validator.key}

namespace Registry

theorem readsOnly_univ (registry : Registry) : registry.ReadsOnly Set.univ := by
  intro v w hagree
  have heq : v = w := funext fun key => hagree key (Set.mem_univ key)
  rw [heq]

theorem readsOnly_ofState : ofState.ReadsOnly {Validator.key} := by
  intro v w hagree
  have hread : v Validator.key = w Validator.key := hagree _ rfl
  unfold ofState View.record?
  rw [hread]

theorem ReadsOnly.mono {registry : Registry} {keys keys' : Set Key}
    (h : registry.ReadsOnly keys) (hsubset : keys ⊆ keys') : registry.ReadsOnly keys' :=
  fun v w hagree => h v w fun key hkey => hagree key (hsubset hkey)

end Registry

namespace Finality

/-- The same rule, whatever heights were read last. -/
structure SameRule (f g : Finality) : Prop where
  validators : f.validators = g.validators
  genesis : f.genesis = g.genesis

variable {f g : Finality} {v w : View} {header : Header} {registry : Registry}

namespace SameRule

theorem refl (f : Finality) : f.SameRule f := ⟨rfl, rfl⟩

theorem trans {e : Finality} (h : e.SameRule f) (h' : f.SameRule g) : e.SameRule g :=
  ⟨h.validators.trans h'.validators, h.genesis.trans h'.genesis⟩

theorem symm (h : f.SameRule g) : g.SameRule f := ⟨h.validators.symm, h.genesis.symm⟩

theorem rules_eq (h : f.SameRule g) : f.rules = g.rules := by
  unfold rules quorum reach
  rw [h.validators]

theorem precommittedIn?_eq (h : f.SameRule g) (ledger : Ledger) :
    f.precommittedIn? ledger = g.precommittedIn? ledger := by
  unfold precommittedIn? quorum
  rw [h.validators]

theorem ofRecords_eq (h : f.SameRule g) (m : Option Height) (ledger : Ledger) :
    f.ofRecords m ledger = g.ofRecords m ledger := by
  obtain ⟨hvalidators, hgenesis⟩ := h
  cases f
  cases g
  subst hvalidators hgenesis
  rfl

theorem read_eq (h : f.SameRule g) (hrecords : v.SameRecords w) : f.read v = g.read w := by
  have hsynced : ∀ ledger, f.synced v ledger = g.synced w ledger := by
    intro ledger
    unfold synced
    rw [hrecords.marker_eq]
    refine congrArg _ (funext fun m => ?_)
    exact congrArg Except.ok (h.ofRecords_eq m ledger)
  unfold read
  rw [hrecords.load_eq]
  simp only [hsynced]

theorem prevotedOf_eq (h : f.SameRule g) (hrecords : v.SameRecords w) :
    f.prevotedOf v = g.prevotedOf w := by
  unfold prevotedOf
  rw [h.read_eq hrecords]

end SameRule

theorem load_congr {n : Word} {genesis : Height} (hrecords : v.SameRecords w) :
    load n genesis v = load n genesis w := by
  unfold load
  refine congrArg _ (funext fun f => ?_)
  rw [(SameRule.refl f).read_eq hrecords]

theorem sameRule_of_read {synced : Finality} {ledger : Ledger}
    (hread : f.read v = .ok (synced, ledger)) : synced.SameRule f := by
  obtain ⟨-, m, -, rfl⟩ := read_eq_ok_iff.mp hread
  exact ⟨rfl, rfl⟩

theorem sameRule_advance (f : Finality) (ledger : Ledger) : (f.advance ledger).2.SameRule f :=
  ⟨(parameters_advance f ledger).1, (parameters_advance f ledger).2⟩

theorem sameRule_add (f : Finality) (header : Header) (store : Store) (db : Database)
    (registry : Registry) : (f.add header store db registry).finality.SameRule f := by
  let r : Round := ⟨f, header, store, db, registry⟩
  show r.addition.finality.SameRule f
  rcases r.isApplied_or_unchanged with ⟨_, _, _, counted, _, happlied⟩ | ⟨-, -, hunchanged⟩
  · rw [happlied.addition_eq.2.1]
    exact (sameRule_advance _ counted).trans (sameRule_of_read happlied.read)
  · rw [hunchanged]
    exact .refl f

end Finality

/-! ## Stores that look alike -/

/-- Two stores with the same recent headers that cannot be told apart at some keys. -/
structure Store.Alike (keys : Set Key) (db db' : Database) (s t : Store) : Prop where
  headers : s.headers = t.headers
  reads : (s.view db).AgreeOn keys (t.view db')

namespace Store.Alike

variable {keys : Set Key} {db db' : Database} {s t : Store}

theorem refl (keys : Set Key) (db : Database) (s : Store) : Alike keys db db s s :=
  ⟨rfl, fun _ _ => rfl⟩

theorem sameRecords (h : Alike keys db db' s t) (hkeys : recordKeys ⊆ keys) :
    (s.view db).SameRecords (t.view db') where
  ledger := h.reads _ (hkeys (by simp [recordKeys]))
  marker := h.reads _ (hkeys (by simp [recordKeys]))

theorem record (h : Alike keys db db' s t) (f : Finality) (advanced : Bool) (ledger : Ledger) :
    Alike keys db db' (f.record advanced ledger s) (f.record advanced ledger t) where
  headers := by
    rw [Finality.headers_record, Finality.headers_record]
    exact h.headers
  reads key hkey := by
    rw [Finality.view_record_eq, Finality.view_record_eq, h.reads key hkey]

theorem appendHeader (h : Alike keys db db' s t) (header : Header) :
    Alike keys db db' (s.appendHeader header) (t.appendHeader header) where
  headers := congrArg (fun w : Window => w.insert header) h.headers
  reads := h.reads

end Store.Alike

namespace Finality

variable {f g : Finality} {header : Header} {registry : Registry} {keys : Set Key}
  {db db' : Database} {s t : Store}

theorem SameRule.verify_eq (hrule : f.SameRule g) (hkeys : recordKeys ⊆ keys)
    (h : s.Alike keys db db' t) : f.verify header s db = g.verify header t db' := by
  unfold verify
  rw [hrule.read_eq (h.sameRecords hkeys), h.headers]

theorem SameRule.prepare_eq (hrule : f.SameRule g) (hkeys : recordKeys ⊆ keys)
    (hregistry : registry.ReadsOnly keys) (h : s.Alike keys db db' t) :
    f.prepare header s db registry = g.prepare header t db' registry := by
  unfold prepare
  simp only [hrule.read_eq (h.sameRecords hkeys), h.headers, hregistry _ _ h.reads]

theorem SameRule.add_eq (hrule : f.SameRule g) (hkeys : recordKeys ⊆ keys)
    (hregistry : registry.ReadsOnly keys) (h : s.Alike keys db db' t) (header : Header) :
    (f.add header s db registry).verdict = (g.add header t db' registry).verdict ∧
      ((f.add header s db registry).store = s ∧ (g.add header t db' registry).store = t ∨
        ∃ updated advanced ledger,
          (f.add header s db registry).store = record updated advanced ledger s ∧
            (g.add header t db' registry).store = record updated advanced ledger t) := by
  have hretained : f.retained = g.retained := by
    unfold retained
    rw [hrule.validators]
  unfold add
  simp only [hrule.prepare_eq hkeys hregistry h, h.headers, hretained]
  cases g.prepare header t db' registry with
  | error e => exact ⟨rfl, .inl ⟨rfl, rfl⟩⟩
  | ok prepared =>
      obtain ⟨synced, ledger, validators⟩ := prepared
      cases hcounted : (synced.rules.count header ledger validators t.headers).ledger? ledger with
      | none => simp [hcounted]
      | some counted =>
          cases hpruned : counted.prune? g.retained with
          | none => simp [hcounted, hpruned]
          | some pruned =>
              simp only [hcounted, hpruned]
              cases (synced.advance counted).1 with
              | false => exact ⟨rfl, .inr ⟨(synced.advance counted).2, false, pruned, rfl, rfl⟩⟩
              | true => exact ⟨rfl, .inr ⟨(synced.advance counted).2, true, pruned, rfl, rfl⟩⟩

end Finality

/-! ## What a header leaves behind -/

/-- The store once a header was dealt with, which joins the recent headers if it is accepted. -/
def Addition.settled (a : Addition) (header : Header) : Store :=
  match a.verdict with
  | .accepted _ => a.store.appendHeader header
  | _ => a.store

theorem Addition.settled_congr {a a' : Addition} (hverdict : a.verdict = a'.verdict)
    (hstore : a.store = a'.store) (header : Header) : a.settled header = a'.settled header := by
  unfold settled
  rw [hverdict, hstore]

namespace Finality

variable {f g : Finality} {header : Header} {registry : Registry} {keys : Set Key}
  {db db' : Database} {s t : Store}

/-- On stores that look alike a header is judged alike and leaves stores that look alike. -/
theorem SameRule.settled_alike (hrule : f.SameRule g) (hkeys : recordKeys ⊆ keys)
    (hregistry : registry.ReadsOnly keys) (h : s.Alike keys db db' t) (header : Header) :
    (f.add header s db registry).verdict = (g.add header t db' registry).verdict ∧
      ((f.add header s db registry).settled header).Alike keys db db'
        ((g.add header t db' registry).settled header) := by
  obtain ⟨hverdict, hstore⟩ := hrule.add_eq hkeys hregistry h header
  have halike : (f.add header s db registry).store.Alike keys db db'
      (g.add header t db' registry).store := by
    obtain ⟨hs, ht⟩ | ⟨updated, advanced, ledger, hs, ht⟩ := hstore
    · rw [hs, ht]
      exact h
    · rw [hs, ht]
      exact h.record updated advanced ledger
  refine ⟨hverdict, ?_⟩
  unfold Addition.settled
  rw [hverdict]
  cases (g.add header t db' registry).verdict with
  | accepted advanced => exact halike.appendHeader header
  | rejected e => exact halike
  | overflowed => exact halike

theorem SameRule.add_eq_self (hrule : f.SameRule g) (header : Header) (s : Store) (db : Database)
    (registry : Registry) :
    (f.add header s db registry).verdict = (g.add header s db registry).verdict ∧
      (f.add header s db registry).settled header =
        (g.add header s db registry).settled header := by
  obtain ⟨hverdict, hstore⟩ := hrule.add_eq (Set.subset_univ _) registry.readsOnly_univ
    (.refl _ db s) header
  refine ⟨hverdict, Addition.settled_congr hverdict ?_ header⟩
  obtain ⟨hs, ht⟩ | ⟨updated, advanced, ledger, hs, ht⟩ := hstore
  · rw [hs, ht]
  · rw [hs, ht]

end Finality

namespace Finality

theorem sameRule_of_start {n : Word} {genesis : Height} {f : Finality}
    (hstart : start n genesis = .ok f) : f.validators = n ∧ f.genesis = genesis := by
  unfold start at hstart
  split at hstart
  · obtain rfl := Except.ok.inj hstart
    exact ⟨rfl, rfl⟩
  · simp at hstart

theorem sameRule_of_load {n : Word} {genesis : Height} {view : View} {f : Finality}
    (hload : load n genesis view = .ok f) : f.validators = n ∧ f.genesis = genesis := by
  obtain ⟨started, hstart, hrest⟩ := bind_eq_ok_iff.mp hload
  obtain ⟨⟨synced, ledger⟩, hread, hsynced⟩ := bind_eq_ok_iff.mp hrest
  obtain rfl := Except.ok.inj hsynced
  have hrule := sameRule_of_read hread
  rw [hrule.validators, hrule.genesis]
  exact sameRule_of_start hstart

end Finality

namespace Gadget

theorem gadget_apply (g : Gadget) (header : Header) (store : Store) (db : Database) :
    (g.apply header store db).gadget.config = g.config ∧
      (g.apply header store db).gadget.registry = g.registry ∧
      (g.apply header store db).gadget.finality =
        (g.finality.add header store db g.registry).finality := by
  cases hverdict : (g.finality.add header store db g.registry).verdict with
  | rejected e => simp [apply, hverdict]
  | overflowed => simp [apply, hverdict]
  | accepted advanced => cases advanced <;> simp [apply, hverdict, notify]

variable {g : Gadget} {header : Header} {store : Store} {db : Database}

theorem store_apply :
    (g.apply header store db).store =
      (g.finality.add header store db g.registry).settled header := by
  let r : Round := ⟨g.finality, header, store, db, g.registry⟩
  cases hverdict : (g.finality.add header store db g.registry).verdict with
  | accepted advanced => cases advanced <;> simp [apply, Addition.settled, hverdict]
  | overflowed => simp [apply, Addition.settled, hverdict]
  | rejected e =>
      have hnot : r.isAccepted = false := by
        have hr : r.addition.verdict = .rejected e := hverdict
        simp [Round.isAccepted, hr]
      have hstore : (g.finality.add header store db g.registry).store = store :=
        (Round.unchanged_of_not_accepted hnot).1
      simp [apply, Addition.settled, hverdict, hstore, Store.restore_snapshot]

/-- What the gadget needs to know to follow a rule: its parameters and its registry. -/
structure Follows (g : Gadget) (fresh : Finality) (registry : Registry) : Prop where
  registry : g.registry = registry
  rule : g.finality.SameRule fresh
  validators : g.config.validators = fresh.validators
  genesis : g.config.genesis = fresh.genesis

variable {fresh : Finality} {registry : Registry}

theorem parameters_init {config : Config} {view : View}
    (hinit : init config registry view = .ok g) :
    g.config = config ∧ g.registry = registry ∧ config.slots.toSlots = .ok g.slots ∧
      g.finality.validators = config.validators ∧ g.finality.genesis = config.genesis := by
  obtain ⟨finality, hload, hrest⟩ := bind_eq_ok_iff.mp hinit
  obtain ⟨slots, hslots, hgadget⟩ := bind_eq_ok_iff.mp hrest
  obtain rfl := Except.ok.inj hgadget
  exact ⟨rfl, rfl, hslots, Finality.sameRule_of_load hload⟩

theorem Follows.of_init {config : Config} {view : View}
    (hinit : init config registry view = .ok g)
    (hfresh : Finality.start config.validators config.genesis = .ok fresh) :
    g.Follows fresh registry := by
  obtain ⟨hconfig, hregistry, -, hvalidators, hgenesis⟩ := parameters_init hinit
  obtain ⟨hfreshValidators, hfreshGenesis⟩ := Finality.sameRule_of_start hfresh
  refine ⟨hregistry, ⟨?_, ?_⟩, ?_, ?_⟩
  · rw [hvalidators, hfreshValidators]
  · rw [hgenesis, hfreshGenesis]
  · rw [hconfig, hfreshValidators]
  · rw [hconfig, hfreshGenesis]

theorem Follows.apply (h : g.Follows fresh registry) :
    (g.apply header store db).gadget.Follows fresh registry := by
  obtain ⟨hconfig, hregistry, hfinality⟩ := gadget_apply g header store db
  refine ⟨hregistry.trans h.registry, ?_, ?_, ?_⟩
  · rw [hfinality]
    exact (Finality.sameRule_add _ _ _ _ _).trans h.rule
  · rw [hconfig, h.validators]
  · rw [hconfig, h.genesis]

end Gadget

end FinalityGadget
