import FinalityGadget.Proofs.Run

/-!
# Contradicting headers in the window

A header is compared with the last retained header of its generator only. In the order of their
heights, every header of a generator acknowledges the one before it, and so all of those before
it, unless a header overtakes the next one: it names the height of that header or a higher one and
claims a higher prevoted height. Such a header is accepted without being counted, and those behind
it need not be acknowledged any more.
-/

namespace FinalityGadget

namespace Window

variable {w : Window} {a b : Header}

/-- A retained header that claims to have been forged after the next one of its generator. -/
structure Overtakes (w : Window) (p q : Header) : Prop where
  retained : p ∈ w.headers ∧ q ∈ w.headers
  generator : p.generator = q.generator
  height : p.height.toNat < q.height.toNat
  next : ∀ h ∈ w.headers, h.generator = q.generator →
    ¬ (p.height < h.height ∧ h.height < q.height)
  forged : q.height.toNat ≤ p.previouslyForged.toNat
  prevoted : q.prevoted.toNat < p.prevoted.toNat

/-- Where neighbours agree and none overtakes the next, a header follows all lower ones of its
generator. -/
theorem NeighboursAgree.follows (hagree : w.NeighboursAgree)
    (hids : ∀ a ∈ w.headers, ∀ b ∈ w.headers, a.height < b.height → a.id ≠ b.id)
    (ha : a ∈ w.headers) (hb : b ∈ w.headers) (hgenerator : a.generator = b.generator)
    (hlt : a.height.toNat < b.height.toNat)
    (hovertakes : ∀ p q, w.Overtakes p q → p.generator = b.generator →
      a.height.toNat ≤ p.height.toNat → ¬ q.height.toNat ≤ b.height.toNat) : b.Follows a := by
  induction hdistance : b.height.toNat - a.height.toNat using Nat.strongRecOn generalizing a b with
  | ind distance ih =>
      by_cases hbetween : ∃ p ∈ w.headers, p.generator = b.generator ∧
          a.height.toNat < p.height.toNat ∧ p.height.toNat < b.height.toNat
      · obtain ⟨p, hp, hpGenerator, hap, hpb⟩ := hbetween
        have hpa : p.Follows a := by
          refine ih (p.height.toNat - a.height.toNat) (by omega) ha hp
            (hgenerator.trans hpGenerator.symm) hap ?_ rfl
          intro q r hqr hqGenerator hq hr
          exact hovertakes q r hqr (hqGenerator.trans hpGenerator) hq (by omega)
        have hbp : b.Follows p := by
          refine ih (b.height.toNat - p.height.toNat) (by omega) hp hb hpGenerator hpb ?_ rfl
          intro q r hqr hqGenerator hq hr
          exact hovertakes q r hqr hqGenerator (by omega) hr
        exact hbp.trans hpa hap hpb
      · have hltWord : a.height < b.height := UInt64.lt_iff_toNat_lt.mpr hlt
        have hnext : ∀ p ∈ w.headers, p.generator = b.generator →
            ¬ (a.height < p.height ∧ p.height < b.height) := by
          intro p hp hpGenerator hpBetween
          rw [UInt64.lt_iff_toNat_lt, UInt64.lt_iff_toNat_lt] at hpBetween
          exact hbetween ⟨p, hp, hpGenerator, hpBetween⟩
        have hnone := hagree a ha b hb hgenerator hltWord hnext
        have hid := hids a ha b hb hltWord
        rcases (Header.contradiction?_eq_none_iff hgenerator hid).mp hnone with
          ⟨horder, hba⟩ | ⟨-, hab⟩
        · exact ⟨hba, Header.previouslyForged_le horder⟩
        · -- Here `a` overtakes `b`.
          have hprevotedLe := hab.prevoted
          have hprevotedNe : b.prevoted.toNat ≠ a.prevoted.toNat := by
            intro heq
            have := hab.height (UInt64.toNat_inj.mp heq)
            omega
          have hoverlap : w.Overtakes a b :=
            ⟨⟨ha, hb⟩, hgenerator, hlt, hnext, hab.forged, by omega⟩
          exact absurd (Nat.le_refl _) (hovertakes a b hoverlap hgenerator (Nat.le_refl _))

end Window

namespace Node

variable {node : Node} {headers : List Header} {a b : Header}

/-- Every accepted header is above those before it. -/
def IsAscending (node : Node) (headers : List Header) : Prop :=
  (node.accepted headers).Pairwise fun a b => a.height < b.height

theorem capacity_run (hfresh : node.IsFresh) (headers : List Header) :
    (node.run headers).store.headers.capacity = node.gadget.finality.retained.toNat := by
  induction headers using List.reverseRecOn with
  | nil =>
      have hempty : (node.run []).store.headers = node.gadget.newWindow := hfresh.headers
      rw [hempty]
      rfl
  | append_singleton headers header ih =>
      rw [run_concat, headers_next, ← ih]
      split <;> rfl

theorem mem_run_of_near (hfresh : node.IsFresh) (hascending : node.IsAscending headers)
    (ha : a ∈ node.accepted headers)
    (hnear : ∀ top ∈ node.accepted headers,
      top.height.toNat < a.height.toNat + node.gadget.finality.retained.toNat) :
    a ∈ (node.run headers).store.headers.headers := by
  induction headers using List.reverseRecOn with
  | nil => simp [accepted, rounds, acceptedHeaders] at ha
  | append_singleton headers header ih =>
      unfold IsAscending at hascending
      rw [accepted_concat] at ha hnear hascending
      rw [run_concat, headers_next]
      cases haccepted : ((node.run headers).round header).isAccepted with
      | false =>
          rw [haccepted] at ha hnear hascending
          simp only [Bool.false_eq_true, if_false, List.append_nil] at ha hnear hascending ⊢
          exact ih hascending ha hnear
      | true =>
          rw [haccepted] at ha hnear hascending
          simp only [if_true] at ha hnear hascending ⊢
          rw [List.pairwise_append] at hascending
          have habove : ∀ p ∈ (node.run headers).store.headers.headers,
              p.height < header.height := by
            intro p hp
            exact hascending.2.2 p (mem_accepted_of_retained hfresh hp) header List.mem_cons_self
          have hmem : a ∈ header :: (node.run headers).store.headers.headers := by
            rcases List.mem_append.mp ha with hold | hlast
            · have hnearOld := fun top htop => hnear top (List.mem_append_left _ htop)
              exact List.mem_cons_of_mem _ (ih hascending.1 hold hnearOld)
            · rw [List.mem_singleton.mp hlast]
              exact List.mem_cons_self
          refine Window.mem_insert_of_near habove hmem ?_
          rw [capacity_run hfresh]
          exact hnear header (by simp)

theorem neighboursAgree_run (hfresh : node.IsFresh) (hascending : node.IsAscending headers) :
    (node.run headers).store.headers.NeighboursAgree := by
  induction headers using List.reverseRecOn with
  | nil =>
      have hempty : (node.run []).store.headers = node.gadget.newWindow := hfresh.headers
      rw [hempty]
      exact Window.neighboursAgree_empty _
  | append_singleton headers header ih =>
      unfold IsAscending at hascending
      rw [accepted_concat, List.pairwise_append] at hascending
      have hagree := ih hascending.1
      rw [run_concat, headers_next]
      cases haccepted : ((node.run headers).round header).isAccepted with
      | false => exact hagree
      | true =>
          rw [haccepted, if_pos rfl] at hascending
          obtain ⟨synced, ledger, validators, counted, pruned, happlied⟩ :=
            Round.isAccepted_iff.mp haccepted
          apply hagree.insert
          · intro p hp
            have hpAccepted := mem_accepted_of_retained hfresh hp
            exact hascending.2.2 p hpAccepted header List.mem_cons_self
          · exact (Finality.check_eq_ok_iff.mp happlied.checked).2

theorem agree_or_overtakes_of_lt (hfresh : node.IsFresh) (hascending : node.IsAscending headers)
    (hids : ((node.accepted headers).map Header.id).Nodup)
    (ha : a ∈ (node.run headers).store.headers.headers)
    (hb : b ∈ (node.run headers).store.headers.headers) (hgenerator : a.generator = b.generator)
    (hlt : a.height.toNat < b.height.toNat) :
    a.contradiction? b = none ∨ ∃ p q, (node.run headers).store.headers.Overtakes p q ∧
      p.generator = b.generator ∧ a.height.toNat ≤ p.height.toNat ∧
      q.height.toNat ≤ b.height.toNat := by
  by_cases hovertakes : ∃ p q, (node.run headers).store.headers.Overtakes p q ∧
      p.generator = b.generator ∧ a.height.toNat ≤ p.height.toNat ∧
      q.height.toNat ≤ b.height.toNat
  · exact .inr hovertakes
  · have hidsRetained : ∀ a ∈ (node.run headers).store.headers.headers,
        ∀ b ∈ (node.run headers).store.headers.headers, a.height < b.height → a.id ≠ b.id := by
      intro x hx y hy hxy hid
      have heq : x = y := List.inj_on_of_nodup_map hids (mem_accepted_of_retained hfresh hx)
        (mem_accepted_of_retained hfresh hy) hid
      exact UInt64.lt_irrefl _ (heq ▸ hxy)
    have hfollows : b.Follows a := by
      apply (neighboursAgree_run hfresh hascending).follows hidsRetained ha hb hgenerator hlt
      intro p q hpq hpGenerator hp hq
      exact hovertakes ⟨p, q, hpq, hpGenerator, hp, hq⟩
    exact .inl (hfollows.contradiction?_eq_none hlt)

/-- Two retained headers contradict each other only if between them, these included, a header
overtakes the next one of its generator. -/
theorem retained_agree_or_overtakes (hfresh : node.IsFresh)
    (hascending : node.IsAscending headers)
    (hids : ((node.accepted headers).map Header.id).Nodup)
    (ha : a ∈ (node.run headers).store.headers.headers)
    (hb : b ∈ (node.run headers).store.headers.headers) :
    a.contradiction? b = none ∨ ∃ p q, (node.run headers).store.headers.Overtakes p q ∧
      p.generator = a.generator ∧ min a.height.toNat b.height.toNat ≤ p.height.toNat ∧
      q.height.toNat ≤ max a.height.toNat b.height.toNat := by
  by_cases hother : a.generator ≠ b.generator ∨ a.id = b.id
  · left
    unfold Header.contradiction?
    rw [if_pos hother]
  · simp only [not_or, ne_eq, Decidable.not_not] at hother
    obtain ⟨hgenerator, hid⟩ := hother
    rcases Nat.lt_trichotomy a.height.toNat b.height.toNat with hlt | heq | hgt
    · rcases agree_or_overtakes_of_lt hfresh hascending hids ha hb hgenerator hlt with
        hnone | ⟨p, q, hpq, hpGenerator, hp, hq⟩
      · exact .inl hnone
      · exact .inr ⟨p, q, hpq, hpGenerator.trans hgenerator.symm, by omega, by omega⟩
    · have hsame := Window.eq_of_height_eq ha hb (UInt64.toNat_inj.mp heq)
      exact absurd (congrArg Header.id hsame) hid
    · rcases agree_or_overtakes_of_lt hfresh hascending hids hb ha hgenerator.symm hgt with
        hnone | ⟨p, q, hpq, hpGenerator, hp, hq⟩
      · rw [Header.contradiction?_comm]
        exact .inl hnone
      · exact .inr ⟨p, q, hpq, hpGenerator, by omega, by omega⟩

/-- The second header names height 3 and overtakes the third, which contradicts the first. -/
theorem overtakes_of_shielded :
    let node := Node.start 2 (by decide) 0 [⟨.ofNat 1, true, 0⟩, ⟨.ofNat 2, true, 0⟩]
    let a : Header := ⟨1, .ofNat 1, .ofNat 0, .ofNat 1, 0, 0, 0, 0⟩
    let b : Header := ⟨3, .ofNat 3, .ofNat 2, .ofNat 1, 0, 0, 0, 0⟩
    let headers := [a, ⟨2, .ofNat 2, .ofNat 1, .ofNat 1, 0, 0, 3, 1⟩, b]
    a ∈ (node.run headers).store.headers.headers ∧ b ∈ (node.run headers).store.headers.headers ∧
      a.contradiction? b = some ⟨.chainDisjoint, .ofNat 1, .ofNat 1, .ofNat 3⟩ ∧
      ∃ p q, (node.run headers).store.headers.Overtakes p q ∧ p.generator = a.generator ∧
        min a.height.toNat b.height.toNat ≤ p.height.toNat ∧
        q.height.toNat ≤ max a.height.toNat b.height.toNat := by
  intro node a b headers
  have haccepted : node.accepted headers = headers := by cbv
  have hretained : (node.run headers).store.headers.headers = headers.reverse := by cbv
  have hcontradiction :
      a.contradiction? b = some ⟨.chainDisjoint, .ofNat 1, .ofNat 1, .ofNat 3⟩ := by decide +kernel
  have hascending : node.IsAscending headers := by
    unfold Node.IsAscending
    rw [haccepted]
    decide +kernel
  have hids : ((node.accepted headers).map Header.id).Nodup := by
    rw [haccepted]
    decide +kernel
  have ha : a ∈ (node.run headers).store.headers.headers := by
    rw [hretained]
    decide +kernel
  have hb : b ∈ (node.run headers).store.headers.headers := by
    rw [hretained]
    decide +kernel
  have hfresh : node.IsFresh := Node.isFresh_start
  refine ⟨ha, hb, hcontradiction, ?_⟩
  rcases retained_agree_or_overtakes hfresh hascending hids ha hb with hnone | hovertakes
  · rw [hcontradiction] at hnone
    simp at hnone
  · exact hovertakes

end Node

end FinalityGadget
