import FinalityGadget.Proofs.Dependence

/-!
# Interleaved blocks

A processor works on several blocks with one gadget: it verifies and applies headers, asks for the
prevoted height, reloads the gadget, and takes and restores snapshots, in any order. The gadget
carries heights from one request to the next, but none of them shows in an answer or in a store:
all is as if every request were met by a rule that was just started. A snapshot that is restored
therefore takes finality back as well.
-/

namespace FinalityGadget

/-- Blocks in progress, each with its store and the storage below it, and the snapshots that were
taken, each under a name. -/
structure Blocks where
  stores : Nat → Store
  storage : Nat → Database
  snapshots : Nat → Option Snapshot

inductive Request
  | apply (header : Header)
  | verify (header : Header)
  | prevoted
  | reload
  | snapshot (name : Nat)
  | restore (name : Nat)

/-- A request about one of the blocks. -/
structure Operation where
  block : Nat
  request : Request

inductive Answer
  | applied (verdict : Verdict)
  | verified (result : Except Error Unit)
  | prevoted (result : Except Error Height)
  | reloaded (result : Except Error Unit)
  | done

namespace Blocks

def put (b : Blocks) (block : Nat) (store : Store) : Blocks :=
  { b with stores := fun i => if i = block then store else b.stores i }

def save (b : Blocks) (block name : Nat) : Blocks :=
  { b with
    snapshots := fun i => if i = name then some (b.stores block).snapshot else b.snapshots i }

/-- Restores a snapshot, if one was taken under the name. -/
def rollBack (b : Blocks) (block name : Nat) : Blocks :=
  match b.snapshots name with
  | some snapshot => b.put block ((b.stores block).restore snapshot)
  | none => b

/-- Meets a request by a rule that was just started. -/
def perform (fresh : Finality) (registry : Registry) (b : Blocks) (op : Operation) :
    Answer × Blocks :=
  let store := b.stores op.block
  let db := b.storage op.block
  match op.request with
  | .apply header =>
    let addition := fresh.add header store db registry
    (.applied addition.verdict, b.put op.block (addition.settled header))
  | .verify header => (.verified (fresh.verify header store db), b)
  | .prevoted => (.prevoted (fresh.prevotedOf (store.view db)), b)
  | .reload =>
    (.reloaded ((Finality.load fresh.validators fresh.genesis (store.view db)).map fun _ => ()), b)
  | .snapshot name => (.done, b.save op.block name)
  | .restore name => (.done, b.rollBack op.block name)

def run (fresh : Finality) (registry : Registry) (b : Blocks) (ops : List Operation) : Blocks :=
  ops.foldl (fun b op => (b.perform fresh registry op).2) b

def answers (fresh : Finality) (registry : Registry) : Blocks → List Operation → List Answer
  | _, [] => []
  | b, op :: rest =>
    (b.perform fresh registry op).1 :: answers fresh registry (b.perform fresh registry op).2 rest

end Blocks

/-- A gadget at work on some blocks. -/
structure Processor where
  gadget : Gadget
  blocks : Blocks

namespace Processor

/-- Meets a request by the gadget, whatever it was asked before. -/
def perform (p : Processor) (op : Operation) : Answer × Processor :=
  let store := p.blocks.stores op.block
  let db := p.blocks.storage op.block
  match op.request with
  | .apply header =>
    let application := p.gadget.apply header store db
    (.applied application.verdict,
      ⟨application.gadget, p.blocks.put op.block application.store⟩)
  | .verify header => (.verified (p.gadget.verify header store db), p)
  | .prevoted => (.prevoted (p.gadget.prevotedOf (store.view db)), p)
  | .reload =>
    match p.gadget.reload (store.view db) with
    | .ok gadget => (.reloaded (.ok ()), { p with gadget })
    | .error e => (.reloaded (.error e), p)
  | .snapshot name => (.done, { p with blocks := p.blocks.save op.block name })
  | .restore name => (.done, { p with blocks := p.blocks.rollBack op.block name })

def run (p : Processor) (ops : List Operation) : Processor :=
  ops.foldl (fun p op => (p.perform op).2) p

def answers : Processor → List Operation → List Answer
  | _, [] => []
  | p, op :: rest => (p.perform op).1 :: answers (p.perform op).2 rest

end Processor

/-! ## The gadget answers like a rule that was just started -/

namespace Processor

variable {p : Processor} {fresh : Finality} {registry : Registry}

theorem perform_eq (h : p.gadget.Follows fresh registry) (op : Operation) :
    (p.perform op).1 = (p.blocks.perform fresh registry op).1 ∧
      (p.perform op).2.blocks = (p.blocks.perform fresh registry op).2 ∧
      (p.perform op).2.gadget.Follows fresh registry := by
  obtain ⟨block, request⟩ := op
  let view := (p.blocks.stores block).view (p.blocks.storage block)
  have hrecords := View.SameRecords.refl view
  cases request with
  | apply header =>
      have hadd := h.rule.add_eq_self header (p.blocks.stores block) (p.blocks.storage block)
        registry
      rw [← h.registry] at hadd
      have hverdict := (Node.verdict_apply
        ⟨p.gadget, p.blocks.stores block, p.blocks.storage block⟩ header).trans hadd.1
      have hstore := Gadget.store_apply.trans hadd.2
      rw [h.registry] at hverdict hstore
      exact ⟨congrArg Answer.applied hverdict, congrArg (p.blocks.put block) hstore, h.apply⟩
  | verify header =>
      refine ⟨congrArg Answer.verified ?_, rfl, h⟩
      exact h.rule.verify_eq (Set.subset_univ _) (.refl _ _ _)
  | prevoted =>
      refine ⟨congrArg Answer.prevoted ?_, rfl, h⟩
      exact h.rule.prevotedOf_eq hrecords
  | reload =>
      have hload : Finality.load p.gadget.config.validators p.gadget.config.genesis view =
          Finality.load fresh.validators fresh.genesis view := by rw [h.validators, h.genesis]
      unfold perform Blocks.perform Gadget.reload
      simp only [view] at hload
      cases hresult : Finality.load fresh.validators fresh.genesis
          ((p.blocks.stores block).view (p.blocks.storage block)) with
      | error e =>
          simp only [hload, hresult, bind, Except.bind, Except.map]
          exact ⟨trivial, trivial, h⟩
      | ok finality =>
          simp only [hload, hresult, bind, Except.bind, pure, Except.pure, Except.map]
          obtain ⟨hvalidators, hgenesis⟩ := Finality.sameRule_of_load hresult
          exact ⟨trivial, trivial, h.registry, ⟨hvalidators, hgenesis⟩, h.validators, h.genesis⟩
  | snapshot name => exact ⟨rfl, rfl, h⟩
  | restore name => exact ⟨rfl, rfl, h⟩

theorem run_eq (h : p.gadget.Follows fresh registry) (ops : List Operation) :
    p.answers ops = p.blocks.answers fresh registry ops ∧
      (p.run ops).blocks = p.blocks.run fresh registry ops ∧
      (p.run ops).gadget.Follows fresh registry := by
  induction ops generalizing p with
  | nil => exact ⟨rfl, rfl, h⟩
  | cons op rest ih =>
      obtain ⟨hanswer, hblocks, hfollows⟩ := perform_eq h op
      obtain ⟨hanswers, hrun, hend⟩ := ih hfollows
      rw [hblocks] at hanswers hrun
      refine ⟨?_, hrun, hend⟩
      show (p.perform op).1 :: (p.perform op).2.answers rest = _
      rw [hanswer, hanswers]
      rfl

end Processor

/-! ## Blocks that look alike -/

/-- A request about a block that restores only snapshots under some names. -/
structure Operation.Concerns (op : Operation) (block : Nat) (names : Set Nat) : Prop where
  block : op.block = block
  restores : ∀ name, op.request = .restore name → name ∈ names

namespace Blocks

/-- One of the blocks looks alike on both sides, and so do the snapshots under some names if they
are restored to it. -/
structure AlikeAt (keys : Set Key) (block : Nat) (names : Set Nat) (b c : Blocks) : Prop where
  store : (b.stores block).Alike keys (b.storage block) (c.storage block) (c.stores block)
  snapshots : ∀ name ∈ names,
    b.snapshots name = none ∧ c.snapshots name = none ∨
      ∃ s t : Store, b.snapshots name = some s.snapshot ∧ c.snapshots name = some t.snapshot ∧
        s.Alike keys (b.storage block) (c.storage block) t

variable {keys : Set Key} {block : Nat} {names : Set Nat} {b c : Blocks} {fresh : Finality}
  {registry : Registry}

namespace AlikeAt

theorem of_eq (hstore : b.stores block = c.stores block)
    (hstorage : b.storage block = c.storage block)
    (hsnapshots : ∀ name ∈ names, b.snapshots name = c.snapshots name) :
    b.AlikeAt keys block names c where
  store := by
    rw [hstore, hstorage]
    exact .refl keys _ _
  snapshots := by
    intro name hname
    rw [hsnapshots name hname, hstorage]
    cases c.snapshots name with
    | none => exact .inl ⟨rfl, rfl⟩
    | some s =>
        let saved : Store := ⟨s.pending, s.headers⟩
        exact .inr ⟨saved, saved, rfl, rfl, .refl keys _ _⟩

theorem put (h : b.AlikeAt keys block names c) {s t : Store}
    (hstore : s.Alike keys (b.storage block) (c.storage block) t) :
    (b.put block s).AlikeAt keys block names (c.put block t) where
  store := by simpa [Blocks.put] using hstore
  snapshots := h.snapshots

theorem save (h : b.AlikeAt keys block names c) (name : Nat) :
    (b.save block name).AlikeAt keys block names (c.save block name) where
  store := h.store
  snapshots := by
    intro other hother
    by_cases heq : other = name
    · exact .inr ⟨b.stores block, c.stores block, by simp [Blocks.save, heq],
        by simp [Blocks.save, heq], h.store⟩
    · simpa [Blocks.save, heq] using h.snapshots other hother

theorem rollBack (h : b.AlikeAt keys block names c) {name : Nat} (hname : name ∈ names) :
    (b.rollBack block name).AlikeAt keys block names (c.rollBack block name) := by
  unfold Blocks.rollBack
  obtain ⟨hb, hc⟩ | ⟨s, t, hb, hc, halike⟩ := h.snapshots name hname
  · rw [hb, hc]
    exact h
  · rw [hb, hc]
    exact h.put halike

theorem perform (h : b.AlikeAt keys block names c) (hkeys : recordKeys ⊆ keys)
    (hregistry : registry.ReadsOnly keys) {op : Operation} (hop : op.Concerns block names) :
    (b.perform fresh registry op).1 = (c.perform fresh registry op).1 ∧
      (b.perform fresh registry op).2.AlikeAt keys block names
        (c.perform fresh registry op).2 := by
  obtain ⟨target, request⟩ := op
  obtain rfl : target = block := hop.block
  have hrule := Finality.SameRule.refl fresh
  have hrecords := h.store.sameRecords hkeys
  cases request with
  | apply header =>
      obtain ⟨hverdict, hsettled⟩ := hrule.settled_alike hkeys hregistry h.store header
      exact ⟨congrArg Answer.applied hverdict, h.put hsettled⟩
  | verify header => exact ⟨congrArg Answer.verified (hrule.verify_eq hkeys h.store), h⟩
  | prevoted => exact ⟨congrArg Answer.prevoted (hrule.prevotedOf_eq hrecords), h⟩
  | reload =>
      refine ⟨congrArg Answer.reloaded ?_, h⟩
      rw [Finality.load_congr hrecords]
  | snapshot name => exact ⟨rfl, h.save name⟩
  | restore name => exact ⟨rfl, h.rollBack (hop.restores name rfl)⟩

theorem answers_eq (h : b.AlikeAt keys block names c) (hkeys : recordKeys ⊆ keys)
    (hregistry : registry.ReadsOnly keys) {ops : List Operation}
    (hops : ∀ op ∈ ops, op.Concerns block names) :
    b.answers fresh registry ops = c.answers fresh registry ops := by
  induction ops generalizing b c with
  | nil => rfl
  | cons op rest ih =>
      obtain ⟨hanswer, hnext⟩ := h.perform hkeys hregistry (hops op List.mem_cons_self)
      have hrest := ih hnext fun o ho => hops o (List.mem_cons_of_mem _ ho)
      show (b.perform fresh registry op).1 :: _ = (c.perform fresh registry op).1 :: _
      rw [hanswer, hrest]

end AlikeAt

/-! ### Rolling back -/

theorem storage_run (ops : List Operation) :
    (b.run fresh registry ops).storage = b.storage := by
  induction ops generalizing b with
  | nil => rfl
  | cons op rest ih =>
      show ((b.perform fresh registry op).2.run fresh registry rest).storage = b.storage
      rw [ih]
      obtain ⟨target, request⟩ := op
      cases request with
      | restore name =>
          show (b.rollBack target name).storage = b.storage
          unfold rollBack
          cases b.snapshots name <;> rfl
      | _ => rfl

theorem snapshots_run {ops : List Operation} {name : Nat}
    (hkept : ∀ op ∈ ops, op.request ≠ .snapshot name) :
    (b.run fresh registry ops).snapshots name = b.snapshots name := by
  induction ops generalizing b with
  | nil => rfl
  | cons op rest ih =>
      show ((b.perform fresh registry op).2.run fresh registry rest).snapshots name = _
      rw [ih fun o ho => hkept o (List.mem_cons_of_mem _ ho)]
      have hop := hkept op List.mem_cons_self
      obtain ⟨target, request⟩ := op
      cases request with
      | restore other =>
          show (b.rollBack target other).snapshots name = b.snapshots name
          unfold rollBack
          cases b.snapshots other <;> rfl
      | snapshot other =>
          have hne : name ≠ other := fun heq => hop (congrArg Request.snapshot heq.symm)
          simp [Blocks.perform, Blocks.save, hne]
      | _ => rfl

/-- Whatever was done to a block since a snapshot of it was taken, restoring the snapshot makes it
look as it did then. -/
theorem alikeAt_of_restored {discarded : List Operation} {name : Nat} {store : Store}
    (hsaved : b.snapshots name = some store.snapshot) (hstore : b.stores block = store)
    (hkept : ∀ op ∈ discarded, op.request ≠ .snapshot name) :
    (b.run fresh registry (discarded ++ [⟨block, .restore name⟩])).AlikeAt keys block
      {kept | ∀ op ∈ discarded, op.request ≠ .snapshot kept} b := by
  let c := b.run fresh registry discarded
  have hrun : b.run fresh registry (discarded ++ [⟨block, .restore name⟩]) =
      c.rollBack block name := by
    unfold run
    rw [List.foldl_append]
    rfl
  have hsnapshot : c.snapshots name = some store.snapshot := (snapshots_run hkept).trans hsaved
  rw [hrun, rollBack, hsnapshot]
  refine .of_eq ?_ ?_ fun kept hmem => ?_
  · simp [put, Store.restore_snapshot, hstore]
  · exact congrFun (storage_run discarded) block
  · exact snapshots_run hmem

end Blocks

namespace Processor

/-- No answer and no store depends on what the gadget was asked before, so a block that is rolled
back goes on as if nothing had happened since; and none depends on a key of the store besides those
of the gadget and of its registry. -/
theorem store_decides {config : Config} {registry : Registry} {view : View} {gadget : Gadget}
    {fresh : Finality} (hinit : Gadget.init config registry view = .ok gadget)
    (hfresh : Finality.start config.validators config.genesis = .ok fresh) (blocks : Blocks)
    (before : List Operation) :
    let p := (⟨gadget, blocks⟩ : Processor).run before
    (∀ ops, p.answers ops = p.blocks.answers fresh registry ops ∧
      (p.run ops).blocks = p.blocks.run fresh registry ops) ∧
    (∀ block name discarded further,
      (∀ op ∈ discarded, op.request ≠ .snapshot name) →
      (∀ op ∈ further,
        op.Concerns block {kept | ∀ o ∈ discarded, o.request ≠ .snapshot kept}) →
      let saved := p.run [⟨block, .snapshot name⟩]
      (saved.run (discarded ++ [⟨block, .restore name⟩])).answers further =
        saved.answers further) ∧
    (∀ block other, registry.ReadsOnly recordKeys →
      p.blocks.AlikeAt recordKeys block Set.univ other →
      ∀ ops, (∀ op ∈ ops, op.block = block) →
        p.answers ops = (⟨p.gadget, other⟩ : Processor).answers ops) := by
  intro p
  have hstart : gadget.Follows fresh registry := .of_init hinit hfresh
  have hp : p.gadget.Follows fresh registry := (run_eq (p := ⟨gadget, blocks⟩) hstart before).2.2
  refine ⟨fun ops => ?_, ?_, ?_⟩
  · exact ⟨(run_eq hp ops).1, (run_eq hp ops).2.1⟩
  · intro block name discarded further hkept hfurther saved
    have hsaved : saved.gadget.Follows fresh registry := hp
    obtain ⟨-, hblocks, hrolled⟩ := run_eq hsaved (discarded ++ [⟨block, .restore name⟩])
    rw [(run_eq hrolled further).1, (run_eq hsaved further).1, hblocks]
    have hsnapshot : saved.blocks.snapshots name = some (p.blocks.stores block).snapshot := by
      simp [saved, run, perform, Blocks.save]
    have halike : (saved.blocks.run fresh registry
        (discarded ++ [⟨block, .restore name⟩])).AlikeAt Set.univ block
          {kept | ∀ op ∈ discarded, op.request ≠ .snapshot kept} saved.blocks :=
      Blocks.alikeAt_of_restored hsnapshot rfl hkept
    exact halike.answers_eq (Set.subset_univ _) registry.readsOnly_univ hfurther
  · intro block other hregistry halike ops hops
    have hother : (⟨p.gadget, other⟩ : Processor).gadget.Follows fresh registry := hp
    rw [(run_eq hp ops).1, (run_eq hother ops).1]
    exact halike.answers_eq (subset_refl _) hregistry fun op hop =>
      ⟨hops op hop, fun _ _ => Set.mem_univ _⟩

set_option maxRecDepth 2000 in
/-- Height 1 is finalized by one block of height 2, and once more by another one after the first
was taken back. -/
theorem store_decides_of_forks :
    let config : Config := ⟨1, 0, .default⟩
    let fresh : Finality := ⟨1, by decide, 0, 0, 0⟩
    let gadget : Gadget := ⟨config, .ofState, fresh, ⟨0, 10, by decide⟩, []⟩
    let store := (Store.ofHeaders (.empty 5)).setValidators [⟨.ofNat 1, true, 0⟩]
    let blocks : Blocks := ⟨fun _ => store, fun _ => .empty, fun _ => none⟩
    let other : Blocks := ⟨fun _ => store.set [7] [7], fun _ => .empty, fun _ => none⟩
    let first : Operation := ⟨0, .apply ⟨1, .ofNat 1, .ofNat 0, .ofNat 1, 0, 0, 0, 0⟩⟩
    let second : Operation := ⟨0, .apply ⟨2, .ofNat 2, .ofNat 1, .ofNat 1, 0, 0, 1, 1⟩⟩
    let fork : Operation := ⟨0, .apply ⟨2, .ofNat 3, .ofNat 1, .ofNat 1, 10, 0, 1, 1⟩⟩
    let p := (⟨gadget, blocks⟩ : Processor).run [first]
    let saved := p.run [⟨0, .snapshot 0⟩]
    saved.answers [fork] = [.applied (.accepted (some 1))] ∧
      (saved.run ([second] ++ [⟨0, .restore 0⟩])).answers [fork] = saved.answers [fork] ∧
      p.answers [second, fork] = p.blocks.answers fresh .ofState [second, fork] ∧
      (⟨gadget, blocks⟩ : Processor).answers [first, second] =
        (⟨gadget, other⟩ : Processor).answers [first, second] := by
  intro config fresh gadget store blocks other first second fork p saved
  have hinit : Gadget.init config .ofState (Database.view .empty) = .ok gadget := by cbv
  have hfresh : Finality.start config.validators config.genesis = .ok fresh := by cbv
  have hempty : blocks.AlikeAt recordKeys 0 Set.univ other := by
    refine ⟨⟨rfl, fun key hkey => ?_⟩, fun _ _ => .inl ⟨rfl, rfl⟩⟩
    have hne : ([7] : Key) ≠ key := by
      rcases hkey with rfl | rfl | rfl <;> decide +kernel
    simp [blocks, other, Store.view_set, hne]
  obtain ⟨hfresh₁, hrolled, -⟩ := store_decides hinit hfresh blocks [first]
  obtain ⟨-, -, hother⟩ := store_decides hinit hfresh blocks []
  refine ⟨by cbv, ?_, (hfresh₁ _).1, ?_⟩
  · refine hrolled 0 0 [second] [fork] (by simp [second]) fun op hop => ?_
    rw [List.mem_singleton.mp hop]
    exact ⟨rfl, by simp [fork]⟩
  · refine hother 0 other (Registry.readsOnly_ofState.mono ?_) hempty _ ?_
    · simp [recordKeys]
    · simp [first, second]

end Processor

end FinalityGadget
