import FinalityGadget.Proofs.Participants

/-!
# Honest headers

An honest header names the last block of its generator and claims the prevoted height of its state.
It is turned down only if that height has fallen since the generator's last retained header. The
prevoted height falls back to the finalized height once no height of the ledger has a prevote quorum
any more; as long as there is one, honest headers are accepted.
-/

namespace FinalityGadget

/-- The height of the last header of a generator, 0 if there is none. -/
def lastForged (headers : List Header) (generator : Address) : Height :=
  ((headers.reverse.find? fun h => h.generator = generator).map Header.height).getD 0

/-- The header of a round claims no lower prevoted height than the last retained one of its
generator. -/
def Round.KeepsClaim (r : Round) : Prop :=
  ∀ previous, r.store.headers.lastBy? r.header.generator = some previous →
    previous.prevoted.toNat ≤ r.header.prevoted.toNat

namespace Node

/-- The header that an honest generator forges after the headers of a run. -/
structure IsHonestNext (node : Node) (headers : List Header) (header : Header) : Prop where
  height : header.height.toNat = headers.length + 1
  fresh : ∀ h ∈ headers, h.id ≠ header.id
  forged : header.previouslyForged = lastForged headers header.generator
  truthful : ((node.run headers).round header).IsTruthful

/-- Headers of heights 1, 2, 3 and so on, each of them honest. -/
inductive HonestRun (node : Node) : (headers : List Header) → Prop
  | nil : HonestRun node []
  | concat {headers : List Header} {header : Header} (hrun : HonestRun node headers)
      (hnext : node.IsHonestNext headers header) : HonestRun node (headers ++ [header])

end Node

theorem lastForged_le {headers : List Header} {generator : Address} {bound : Nat}
    (hheights : ∀ h ∈ headers, h.height.toNat ≤ bound) :
    (lastForged headers generator).toNat ≤ bound := by
  unfold lastForged
  cases hfind : headers.reverse.find? fun h => h.generator = generator with
  | none => exact Nat.zero_le _
  | some last => exact hheights last (List.mem_reverse.mp (List.mem_of_find?_eq_some hfind))

namespace Node

variable {node : Node} {headers : List Header} {header : Header}

namespace HonestRun

theorem bounds (hrun : HonestRun node headers) : ∀ h ∈ headers,
    h.previouslyForged.toNat < h.height.toNat ∧ h.height.toNat ≤ headers.length := by
  induction hrun with
  | nil => simp
  | @concat headers header hrun hnext ih =>
      intro h hh
      rw [List.length_append, List.length_singleton]
      rcases List.mem_append.mp hh with hold | hlast
      · have := ih h hold
        omega
      · obtain rfl := List.mem_singleton.mp hlast
        have hforged : h.previouslyForged.toNat ≤ headers.length := by
          rw [hnext.forged]
          exact lastForged_le fun p hp => (ih p hp).2
        have hheight := hnext.height
        omega

theorem ascending (hrun : HonestRun node headers) :
    headers.Pairwise fun a b => a.height < b.height := by
  induction hrun with
  | nil => exact List.Pairwise.nil
  | @concat headers header hrun hnext ih =>
      refine List.pairwise_append.mpr ⟨ih, List.pairwise_singleton _ _, fun p hp h hh => ?_⟩
      have hbound := (hrun.bounds p hp).2
      have hheight := hnext.height
      rw [List.mem_singleton.mp hh, UInt64.lt_iff_toNat_lt]
      omega

end HonestRun

theorem accepted_eq_of_forall (hall : ∀ r ∈ node.rounds headers, r.isAccepted = true) :
    node.accepted headers = headers := by
  induction headers generalizing node with
  | nil => rfl
  | cons first rest ih =>
      have hfirst := hall _ List.mem_cons_self
      have hrest := ih fun r hr => hall r (List.mem_cons_of_mem _ hr)
      show acceptedHeaders (node.round first :: (node.next first).rounds rest) = _
      unfold acceptedHeaders
      rw [List.filter_cons_of_pos hfirst, List.map_cons]
      exact congrArg _ hrest

theorem headers_run (hfresh : node.IsFresh)
    (hall : ∀ r ∈ node.rounds headers, r.isAccepted = true)
    (hascending : headers.Pairwise fun a b => a.height < b.height) :
    (node.run headers).store.headers.capacity = node.gadget.newWindow.capacity ∧
      (node.run headers).store.headers.headers =
        headers.reverse.take node.gadget.newWindow.capacity := by
  induction headers using List.reverseRecOn with
  | nil =>
      have hempty : (node.run []).store.headers = node.gadget.newWindow := hfresh.headers
      rw [hempty]
      exact ⟨rfl, by simp [Gadget.newWindow, Window.empty]⟩
  | append_singleton headers header ih =>
      rw [rounds_concat] at hall
      rw [List.pairwise_append] at hascending
      have hallOld : ∀ r ∈ node.rounds headers, r.isAccepted = true :=
        fun r hr => hall r (List.mem_append_left _ hr)
      obtain ⟨hcapacity, hheaders⟩ := ih hallOld hascending.1
      have habove : ∀ p ∈ (node.run headers).store.headers.headers, p.height < header.height := by
        intro p hp
        have hpAccepted := mem_accepted_of_retained hfresh hp
        rw [accepted_eq_of_forall hallOld] at hpAccepted
        exact hascending.2.2 p hpAccepted header List.mem_cons_self
      have haccepted : ((node.run headers).round header).isAccepted = true := hall _ (by simp)
      rw [run_concat, headers_next, if_pos haccepted]
      refine ⟨hcapacity, ?_⟩
      rw [Window.headers_insert habove, hcapacity, hheaders, List.reverse_concat]
      cases node.gadget.newWindow.capacity with
      | zero => rfl
      | succ capacity => simp [List.take_take]

theorem lastForged_of_lastBy? (hfresh : node.IsFresh)
    (hall : ∀ r ∈ node.rounds headers, r.isAccepted = true)
    (hascending : headers.Pairwise fun a b => a.height < b.height) {generator : Address}
    {previous : Header}
    (hlast : (node.run headers).store.headers.lastBy? generator = some previous) :
    lastForged headers generator = previous.height := by
  have hfind : headers.reverse.find? (fun h => h.generator = generator) = some previous := by
    unfold Window.lastBy? at hlast
    rw [(headers_run hfresh hall hascending).2] at hlast
    rw [← List.take_append_drop node.gadget.newWindow.capacity headers.reverse,
      List.find?_append, hlast]
    rfl
  unfold lastForged
  rw [hfind]
  rfl

/-! ## One honest header -/

theorem verify_eq_ok {r : Round} (haccepted : r.isAccepted = true) :
    r.finality.verify r.header r.store r.db = .ok () := by
  obtain ⟨synced, ledger, validators, counted, pruned, happlied⟩ :=
    Round.isAccepted_iff.mp haccepted
  have hread : r.finality.read (r.store.view r.db) = .ok (synced, ledger) := happlied.read
  unfold Finality.verify
  rw [hread]
  exact happlied.checked

theorem contradiction?_eq_none_iff_of_honest {previous : Header}
    (hgenerator : previous.generator = header.generator) (hid : previous.id ≠ header.id)
    (hnamed : header.previouslyForged = previous.height)
    (hforged : previous.previouslyForged.toNat < previous.height.toNat)
    (hlt : previous.height.toNat < header.height.toNat) :
    previous.contradiction? header = none ↔ previous.prevoted.toNat ≤ header.prevoted.toNat := by
  constructor
  · intro hnone
    rcases Header.acknowledges_or hgenerator hid hnone with hheader | hprevious
    · exact hheader.prevoted
    · have := hprevious.forged
      omega
  · intro hprevoted
    have hfollows : header.Follows previous :=
      ⟨⟨by rw [hnamed], hprevoted, fun _ => hlt⟩, by rw [hnamed]; omega⟩
    exact hfollows.contradiction?_eq_none hlt

end Node

section Run

variable {n : Word} {genesis : Height} {rounds : List Round} {view : View}

theorem exists_marker (hrun : Run n genesis rounds view) :
    ∃ m, Finality.marker view = .ok m := by
  induction hrun with
  | start hledger hmarker => exact ⟨none, Finality.marker_of_none hmarker⟩
  | @step rounds view after r hrun hn hgenesis hbefore hafter ih =>
      obtain ⟨m, hm⟩ := ih
      rw [hafter.marker_eq]
      cases haccepted : r.isAccepted with
      | false =>
          rw [Round.viewAfter_of_not_accepted haccepted, hbefore.marker_eq]
          exact ⟨m, hm⟩
      | true =>
          obtain ⟨synced, ledger, validators, counted, pruned, happlied⟩ :=
            Round.isAccepted_iff.mp haccepted
          rw [happlied.marker_viewAfter, hbefore.marker_eq, hm]
          split <;> exact ⟨_, rfl⟩

end Run

namespace Node

variable {node : Node} {headers : List Header} {header : Header} {members : List Validator}

theorem exists_records (hfresh : node.IsFresh) (hregistry : node.gadget.registry = .fixed members)
    (hmembers : members.length ≤ node.gadget.finality.validators.toNat) (headers : List Header)
    (header : Header) :
    ∃ ledger m, Ledger.load ((node.run headers).round header).view = .ok ledger ∧
      Finality.marker ((node.run headers).round header).view = .ok m ∧
      Tallied node.gadget.finality.validators (node.rounds headers) ledger := by
  have hcard : (participants members).card ≤ Word.maxNat :=
    (card_participants_le.trans hmembers).trans (Word.toNat_le _)
  obtain ⟨m, hmarker⟩ := exists_marker (isRun hfresh headers)
  obtain ⟨ledger, hload, htallied⟩ := exists_tallied (isRun hfresh headers) hcard fun r hr =>
    Round.generator_mem_participants ((registry_of_mem_rounds hr).trans hregistry)
  rw [← view_round] at hmarker hload
  exact ⟨ledger, m, hload, hmarker, htallied⟩

theorem isAccepted_of_checked (hfresh : node.IsFresh)
    (hregistry : node.gadget.registry = .fixed members)
    (hmembers : members.length ≤ node.gadget.finality.validators.toNat) {synced : Finality}
    {ledger : Ledger} (hread : ((node.run headers).round header).finality.read
      ((node.run headers).round header).view = .ok (synced, ledger))
    (hchecked : synced.check header (node.run headers).store.headers = .ok ()) :
    ((node.run headers).round header).isAccepted = true := by
  obtain ⟨loaded, m, hloaded, -, htallied⟩ :=
    exists_records hfresh hregistry hmembers headers header
  obtain rfl : ledger = loaded :=
    Except.ok.inj ((Finality.read_eq_ok_iff.mp hread).1.symm.trans hloaded)
  exact Round.isAccepted_of_checked hread hchecked (run_registry.trans hregistry)
    ((card_participants_le.trans hmembers).trans (Word.toNat_le _)) htallied
    fun r hr => (registry_of_mem_rounds hr).trans hregistry

/-- After honest headers that were all accepted, the next one is accepted exactly if its generator
claimed no higher prevoted height before. -/
theorem isAccepted_iff_keepsClaim (hfresh : node.IsFresh)
    (hregistry : node.gadget.registry = .fixed members)
    (hmembers : members.length ≤ node.gadget.finality.validators.toNat)
    (hhonest : HonestRun node headers) (hall : ∀ r ∈ node.rounds headers, r.isAccepted = true)
    (hnext : node.IsHonestNext headers header) :
    ((node.run headers).round header).isAccepted = true ↔
      ((node.run headers).round header).KeepsClaim := by
  have hprevious : ∀ previous,
      (node.run headers).store.headers.lastBy? header.generator = some previous →
      (previous.contradiction? header = none ↔
        previous.prevoted.toNat ≤ header.prevoted.toNat) := by
    intro previous hlast
    obtain ⟨⟨hretained, hgenerator⟩, -⟩ := Window.lastBy?_eq_some_iff.mp hlast
    have hmem : previous ∈ headers := by
      have haccepted := mem_accepted_of_retained hfresh hretained
      rwa [accepted_eq_of_forall hall] at haccepted
    obtain ⟨hforged, hheight⟩ := hhonest.bounds previous hmem
    have hnamed := hnext.forged.trans
      (lastForged_of_lastBy? hfresh hall hhonest.ascending hlast)
    have hheaderHeight := hnext.height
    exact contradiction?_eq_none_iff_of_honest hgenerator (hnext.fresh previous hmem) hnamed
      hforged (by omega)
  constructor
  · intro haccepted previous hlast
    obtain ⟨synced, ledger, validators, counted, pruned, happlied⟩ :=
      Round.isAccepted_iff.mp haccepted
    have hnone := (Finality.check_eq_ok_iff.mp happlied.checked).2 previous hlast
    exact (hprevious previous hlast).mp hnone
  · intro hkeeps
    obtain ⟨ledger, m, hload, hmarker, -⟩ :=
      exists_records hfresh hregistry hmembers headers header
    let synced := ((node.run headers).round header).finality.ofRecords m ledger
    have hread : ((node.run headers).round header).finality.read
        ((node.run headers).round header).view = .ok (synced, ledger) :=
      Finality.read_eq_ok_iff.mpr ⟨hload, m, hmarker, rfl⟩
    refine isAccepted_of_checked hfresh hregistry hmembers hread ?_
    refine Finality.check_eq_ok_iff.mpr ⟨fun _ => ?_, fun previous hlast => ?_⟩
    · have htruthful := hnext.truthful
      unfold Round.IsTruthful at htruthful
      rw [Finality.prevotedOf_eq hread] at htruthful
      exact (Except.ok.inj htruthful).symm
    · exact (hprevious previous hlast).mpr (hkeeps previous hlast)

theorem forall_isAccepted_iff (hfresh : node.IsFresh)
    (hregistry : node.gadget.registry = .fixed members)
    (hmembers : members.length ≤ node.gadget.finality.validators.toNat)
    (hhonest : HonestRun node headers) :
    (∀ r ∈ node.rounds headers, r.isAccepted = true) ↔
      ∀ r ∈ node.rounds headers, r.KeepsClaim := by
  induction hhonest with
  | nil => simp [rounds]
  | @concat headers header hhonest hnext ih =>
      rw [rounds_concat, List.forall_mem_append, List.forall_mem_append, List.forall_mem_singleton,
        List.forall_mem_singleton]
      constructor
      · rintro ⟨hall, haccepted⟩
        exact ⟨ih.mp hall, (isAccepted_iff_keepsClaim hfresh hregistry hmembers hhonest hall
          hnext).mp haccepted⟩
      · rintro ⟨hkeepsAll, hkeeps⟩
        have hall := ih.mpr hkeepsAll
        exact ⟨hall, (isAccepted_iff_keepsClaim hfresh hregistry hmembers hhonest hall
          hnext).mpr hkeeps⟩

end Node

/-! ## Claims that cannot be overtaken -/

/-- A height that no prevote quorum of the ledger lies below: it is 0, has a quorum itself, or lies
a whole window below a height of the ledger. -/
def Ledger.Settles (l : Ledger) (n : Word) (x : Height) : Prop :=
  x = 0 ∨ (x ∈ l.tallies ∧ (Quorum.ofValidators n).isMet (l.tally x).prevotes = true) ∨
    ∃ k, k ∈ l.tallies ∧ x.toNat + (Word.satMul n 5).toNat ≤ k.toNat

/-- The ledger that a round reads holds a height with a prevote quorum. -/
def Round.ShowsQuorum (r : Round) : Prop :=
  ∃ ledger h, Ledger.load r.view = .ok ledger ∧ h ∈ ledger.tallies ∧
    r.finality.quorum.isMet (ledger.tally h).prevotes = true

namespace Ledger.Settles

variable {n : Word} {x : Height} {r : Round} {ledger counted pruned : Ledger}

theorem count (hsettles : ledger.Settles n x) (hcounts : r.Counts ledger counted) :
    counted.Settles n x := by
  rcases hsettles with hzero | ⟨hmem, hmet⟩ | ⟨k, hk, hle⟩
  · exact .inl hzero
  · have hgrown : ((counted.tally x).prevotes).toNat =
        ((ledger.tally x).prevotes).toNat + (r.heights .prevote).count x :=
      hcounts.votes .prevote x
    rw [Quorum.isMet_iff] at hmet
    refine .inr (.inl ⟨(hcounts.mem_iff x).mpr (.inl hmem), Quorum.isMet_iff.mpr ?_⟩)
    omega
  · exact .inr (.inr ⟨k, (hcounts.mem_iff k).mpr (.inl hk), hle⟩)

theorem prune (hsettles : counted.Settles n x)
    (hpruned : counted.IsPruned (Word.satMul n 5).toNat pruned)
    (hwindow : 0 < (Word.satMul n 5).toNat) : pruned.Settles n x := by
  rcases hsettles with hzero | ⟨hmem, hmet⟩ | ⟨k, hk, hle⟩
  · exact .inl hzero
  · rcases hpruned.mem_or_dropped hwindow hmem with hkept | hdropped
    · refine .inr (.inl ⟨hkept, ?_⟩)
      rwa [hpruned.tally x hkept]
    · exact .inr (.inr hdropped)
  · obtain ⟨top, htop, hkTop⟩ := hpruned.exists_ge_of_mem hwindow hk
    exact .inr (.inr ⟨top, htop, by omega⟩)

theorem le_prevotedIn (hsettles : ledger.Settles n x) {f : Finality} (hn : f.validators = n)
    (hwithin : ∀ h, h ∈ ledger.tallies → ∀ k, k ∈ ledger.tallies →
      k.toNat < h.toNat + (Word.satMul n 5).toNat) {h : Height} (hmem : h ∈ ledger.tallies)
    (hmet : f.quorum.isMet (ledger.tally h).prevotes = true) :
    x.toNat ≤ (f.prevotedIn ledger).toNat := by
  have hle := Finality.le_prevotedIn hmem hmet
  rcases hsettles with rfl | ⟨hxMem, hxMet⟩ | ⟨k, hk, hdropped⟩
  · exact Nat.zero_le _
  · rw [← hn] at hxMet
    exact Finality.le_prevotedIn hxMem hxMet
  · have := hwithin h hmem k hk
    omega

theorem prevoted_ofRecords {f : Finality} {m : Option Height} (hn : f.validators = n)
    (hgenesis : f.genesis = 0) (hmarker : ledger.Settles n (m.getD 0)) :
    ledger.Settles n (f.ofRecords m ledger).prevoted := by
  show ledger.Settles n ((ledger.highestWhere? fun tally => f.quorum.isMet tally.prevotes).getD
    (max (m.getD 0) f.genesis))
  cases hhighest : ledger.highestWhere? fun tally => f.quorum.isMet tally.prevotes with
  | none =>
      have hmax : max (m.getD 0) f.genesis = m.getD 0 := by
        rw [hgenesis, ← UInt64.toNat_inj, Word.toNat_max]
        exact Nat.max_eq_left (Nat.zero_le _)
      rw [Option.getD_none, hmax]
      exact hmarker
  | some highest =>
      obtain ⟨hmem, hmet⟩ := (Ledger.highestWhere?_eq_some_iff.mp hhighest).1
      refine .inr (.inl ⟨hmem, ?_⟩)
      rwa [Finality.quorum, hn] at hmet

end Ledger.Settles

section Run

variable {n : Word} {genesis : Height} {rounds : List Round} {view : View}
  {members : List Validator}

/-- In a run of truthful headers, the finalized height and all claims settle. -/
theorem settles_of_truthful (hrun : Run n genesis rounds view) (hzero : genesis = 0)
    (hmembers : (participants members).card ≤ n.toNat)
    (hregistry : ∀ r ∈ rounds, r.registry = .fixed members)
    (htruthful : ∀ r ∈ rounds, r.IsTruthful) :
    ∀ ledger m, Ledger.load view = .ok ledger → Finality.marker view = .ok m →
      ledger.Settles n (m.getD 0) ∧
        ∀ header ∈ acceptedHeaders rounds, ledger.Settles n header.prevoted := by
  induction hrun with
  | start hledger hmarker =>
      intro ledger m _ hm
      obtain rfl := Except.ok.inj ((Finality.marker_of_none hmarker).symm.trans hm)
      exact ⟨.inl rfl, by simp [acceptedHeaders]⟩
  | @step rounds view after r hrun hn hgenesis hbefore hafter ih =>
      have hregistryOld : ∀ r ∈ rounds, r.registry = .fixed members :=
        fun r hr => hregistry r (List.mem_append_left _ hr)
      have hold := ih hregistryOld fun r hr => htruthful r (List.mem_append_left _ hr)
      intro loaded marker hloaded hmarker
      rw [hafter.load_eq] at hloaded
      rw [hafter.marker_eq] at hmarker
      rw [acceptedHeaders_concat]
      cases haccepted : r.isAccepted with
      | false =>
          rw [Round.viewAfter_of_not_accepted haccepted] at hloaded hmarker
          rw [hbefore.load_eq] at hloaded
          rw [hbefore.marker_eq] at hmarker
          simpa using hold loaded marker hloaded hmarker
      | true =>
          obtain ⟨synced, ledger, validators, counted, pruned, happlied⟩ :=
            Round.isAccepted_iff.mp haccepted
          obtain ⟨hload, m, hm, hsynced⟩ := Finality.read_eq_ok_iff.mp happlied.read
          rw [hbefore.load_eq] at hload
          obtain ⟨hmSettles, hclaims⟩ := hold ledger m hload (hbefore.marker_eq ▸ hm)
          have htallied := happlied.tallied hrun hbefore hmembers hregistryOld
          have hcounts := happlied.counts_ledger
          have hwindow : 0 < (Word.satMul n 5).toNat := hn ▸ r.finality.retained_pos
          have hpruned := Ledger.isPruned_prune? happlied.prunes
          rw [Finality.retained, hn] at hpruned
          rw [happlied.load_written hrun hbefore hn hmembers hregistry] at hloaded
          obtain rfl := Except.ok.inj hloaded
          have hkeeps : ∀ x, ledger.Settles n x → pruned.Settles n x :=
            fun x hx => (hx.count hcounts).prune hpruned hwindow
          refine ⟨?_, fun header hheader => ?_⟩
          · rcases happlied.marker_eq_or_verdict hmarker with hview | ⟨height, rfl, hverdict⟩
            · obtain rfl := Except.ok.inj (hm.symm.trans hview)
              exact hkeeps _ hmSettles
            · have hsettles : counted.Settles n height :=
                .inr (.inl (happlied.prevotes_of_verdict htallied hn hverdict))
              exact hsettles.prune hpruned hwindow
          · rcases List.mem_append.mp hheader with hheaderOld | hlast
            · exact hkeeps _ (hclaims header hheaderOld)
            · obtain rfl : header = r.header := by simpa using hlast
              rw [(htruthful r (by simp)).prevoted_eq happlied, hsynced]
              apply hkeeps
              exact Ledger.Settles.prevoted_ofRecords hn (hgenesis.trans hzero) hmSettles

end Run

namespace Node

variable {node : Node} {headers : List Header} {members : List Validator}

theorem HonestRun.truthful (hrun : HonestRun node headers) :
    ∀ r ∈ node.rounds headers, r.IsTruthful := by
  induction hrun with
  | nil => simp [rounds]
  | @concat headers header hrun hnext ih =>
      rw [rounds_concat, List.forall_mem_append, List.forall_mem_singleton]
      exact ⟨ih, hnext.truthful⟩

theorem keepsClaim_of_showsQuorum (hfresh : node.IsFresh)
    (hgenesis : node.gadget.finality.genesis = 0)
    (hregistry : node.gadget.registry = .fixed members)
    (hmembers : members.length ≤ node.gadget.finality.validators.toNat)
    (hhonest : HonestRun node headers) :
    ∀ r ∈ node.rounds headers, r.ShowsQuorum → r.KeepsClaim := by
  induction hhonest with
  | nil => simp [rounds]
  | @concat headers header hhonest hnext ih =>
      rw [rounds_concat, List.forall_mem_append, List.forall_mem_singleton]
      refine ⟨ih, ?_⟩
      rintro ⟨ledger, h, hload, hmem, hmet⟩ previous hlast
      have hretained := (Window.lastBy?_eq_some_iff.mp hlast).1.1
      have haccepted := mem_accepted_of_retained hfresh hretained
      obtain ⟨loaded, m, hloaded, hmarker, htallied⟩ :=
        exists_records hfresh hregistry hmembers headers header
      obtain rfl : loaded = ledger := Except.ok.inj (hloaded.symm.trans hload)
      have hread : ((node.run headers).round header).finality.read
          ((node.run headers).round header).view =
            .ok (((node.run headers).round header).finality.ofRecords m loaded, loaded) :=
        Finality.read_eq_ok_iff.mpr ⟨hload, m, hmarker, rfl⟩
      have hclaim : header.prevoted = (((node.run headers).round header).finality.ofRecords m
          loaded).prevoted := by
        have htruthful := hnext.truthful
        unfold Round.IsTruthful at htruthful
        rw [Finality.prevotedOf_eq hread] at htruthful
        exact (Except.ok.inj htruthful).symm
      rw [view_round] at hload hmarker
      have hsettles := (settles_of_truthful (isRun hfresh headers) hgenesis
        (card_participants_le.trans hmembers)
        (fun r hr => (registry_of_mem_rounds hr).trans hregistry) hhonest.truthful
        loaded m hload hmarker).2 previous haccepted
      show previous.prevoted.toNat ≤ header.prevoted.toNat
      rw [hclaim]
      exact hsettles.le_prevotedIn parameters_run.1 htallied.within hmem hmet

/-- An honest run is accepted exactly if no header claims a lower prevoted height than the last
retained one of its generator, which none does as long as the ledger holds a prevote quorum. -/
theorem honestRun_accepted_iff (hfresh : node.IsFresh)
    (hgenesis : node.gadget.finality.genesis = 0)
    (hregistry : node.gadget.registry = .fixed members)
    (hmembers : members.length ≤ node.gadget.finality.validators.toNat)
    (hhonest : HonestRun node headers) :
    ((∀ r ∈ node.rounds headers, r.finality.verify r.header r.store r.db = .ok () ∧
      r.isAccepted = true) ↔ ∀ r ∈ node.rounds headers, r.KeepsClaim) ∧
    ∀ r ∈ node.rounds headers, r.ShowsQuorum → r.KeepsClaim := by
  have hiff := forall_isAccepted_iff hfresh hregistry hmembers hhonest
  refine ⟨⟨fun hall => hiff.mp fun r hr => (hall r hr).2, fun hkeeps r hr => ?_⟩, ?_⟩
  · have haccepted := hiff.mpr hkeeps r hr
    exact ⟨verify_eq_ok haccepted, haccepted⟩
  · exact keepsClaim_of_showsQuorum hfresh hgenesis hregistry hmembers hhonest

/-- Two headers of a single validator, the second of which names the first. -/
theorem honestRun_accepted_iff_of_two :
    let node := Node.start 1 (by decide) 0 [⟨.ofNat 1, true, 0⟩]
    let headers : List Header :=
      [⟨1, .ofNat 1, .ofNat 0, .ofNat 1, 0, 0, 0, 0⟩, ⟨2, .ofNat 2, .ofNat 1, .ofNat 1, 0, 0, 1, 1⟩]
    HonestRun node headers ∧
      ((∀ r ∈ node.rounds headers, r.finality.verify r.header r.store r.db = .ok () ∧
        r.isAccepted = true) ↔ ∀ r ∈ node.rounds headers, r.KeepsClaim) ∧
      ∀ r ∈ node.rounds headers, r.ShowsQuorum → r.KeepsClaim := by
  intro node headers
  have hhonest : HonestRun node headers := by
    refine .concat (.concat .nil ⟨by decide, by simp, by decide +kernel, ?_⟩)
      ⟨by decide, by decide +kernel, by decide +kernel, ?_⟩
    · unfold Round.IsTruthful
      cbv
    · unfold Round.IsTruthful
      cbv
  have hfresh : node.IsFresh := isFresh_start
  exact ⟨hhonest, honestRun_accepted_iff hfresh rfl rfl (by decide) hhonest⟩

end Node

end FinalityGadget
