import FinalityGadget.Proofs.Contradiction
import FinalityGadget.Window
import Mathlib.Data.Finset.Card

/-!
# Retained headers

What inserting a header keeps, how many headers are retained, the highest header of a generator, and
windows whose neighbouring headers of a generator do not contradict each other.
-/

namespace FinalityGadget.Window

variable {w v : Window} {header a b h : Header}

theorem mem_insert (hmem : h ∈ (w.insert header).headers) : h = header ∨ h ∈ w.headers := by
  have hplaced : h ∈ place header w.headers := List.mem_of_mem_take hmem
  rcases (mem_place w.descending).mp hplaced with heq | ⟨hold, -⟩
  · exact .inl heq
  · exact .inr hold

theorem headers_insert (habove : ∀ p ∈ w.headers, p.height < header.height) :
    (w.insert header).headers = (header :: w.headers).take w.capacity := by
  have hplace : place header w.headers = header :: w.headers := by
    cases hheaders : w.headers with
    | nil => rfl
    | cons first rest =>
        have hfirst := habove first (by rw [hheaders]; exact List.mem_cons_self)
        simp [place, hfirst]
  show (place header w.headers).take w.capacity = _
  rw [hplace]

theorem mem_take_or_below {headers : List Header} {n : Nat}
    (hdesc : headers.Pairwise fun a b => b.height < a.height) (hmem : h ∈ headers) :
    h ∈ headers.take n ∨ ∀ kept ∈ headers.take n, h.height < kept.height := by
  rw [← List.take_append_drop n headers] at hdesc hmem
  rcases List.mem_append.mp hmem with hkept | hdropped
  · exact .inl hkept
  · exact .inr fun kept hkept => (List.pairwise_append.mp hdesc).2.2 kept hkept h hdropped

theorem mem_insert_of_lt (ha : a ∈ (w.insert header).headers) (hb : b ∈ w.headers)
    (hne : b.height ≠ header.height) (hlt : a.height < b.height) :
    b ∈ (w.insert header).headers := by
  have hplaced : b ∈ place header w.headers := (mem_place w.descending).mpr (.inr ⟨hb, hne⟩)
  rcases mem_take_or_below (descending_place w.descending) hplaced with hkept | hbelow
  · exact hkept
  · exact absurd (hbelow a ha) (UInt64.lt_asymm hlt)

theorem get?_congr {height : Height}
    (hsame : ∀ h, h.height = height → (h ∈ w.headers ↔ h ∈ v.headers)) :
    w.get? height = v.get? height := by
  have hiff : ∀ h, w.get? height = some h ↔ v.get? height = some h := by
    intro h
    rw [get?_eq_some_iff, get?_eq_some_iff]
    exact ⟨fun ⟨hmem, hat⟩ => ⟨(hsame h hat).mp hmem, hat⟩,
      fun ⟨hmem, hat⟩ => ⟨(hsame h hat).mpr hmem, hat⟩⟩
  exact Option.ext hiff

theorem add_le_of_mem_drop {first : Header} {rest : List Header} {n : Nat}
    (hdesc : (first :: rest).Pairwise fun a b => b.height < a.height)
    (hmem : h ∈ (first :: rest).drop n) : h.height.toNat + n ≤ first.height.toNat := by
  induction n generalizing first rest with
  | zero =>
      rcases List.mem_cons.mp hmem with rfl | hmem
      · exact Nat.le_refl _
      · have hlt := (List.pairwise_cons.mp hdesc).1 h hmem
        rw [UInt64.lt_iff_toNat_lt] at hlt
        omega
  | succ n ih =>
      obtain ⟨hfirst, hrest⟩ := List.pairwise_cons.mp hdesc
      cases rest with
      | nil => simp at hmem
      | cons second rest =>
          have hle := ih hrest hmem
          have hlt := hfirst second List.mem_cons_self
          rw [UInt64.lt_iff_toNat_lt] at hlt
          omega

theorem mem_insert_of_near (habove : ∀ p ∈ w.headers, p.height < header.height)
    (hmem : h ∈ header :: w.headers)
    (hnear : header.height.toNat < h.height.toNat + w.capacity) :
    h ∈ (w.insert header).headers := by
  have hdesc : (header :: w.headers).Pairwise fun a b => b.height < a.height :=
    List.pairwise_cons.mpr ⟨habove, w.descending⟩
  rw [headers_insert habove]
  rw [← List.take_append_drop w.capacity (header :: w.headers)] at hmem
  rcases List.mem_append.mp hmem with hkept | hdropped
  · exact hkept
  · have := add_le_of_mem_drop hdesc hdropped
    omega

theorem mem_insert_of_room (habove : ∀ p ∈ w.headers, p.height < header.height)
    (hmem : h ∈ header :: w.headers) (hroom : w.size < w.capacity) :
    h ∈ (w.insert header).headers := by
  rw [headers_insert habove, List.take_of_length_le hroom]
  exact hmem

theorem size_insert_le : (w.insert header).size ≤ w.size + 1 := by
  have hplace : ∀ headers : List Header, (place header headers).length ≤ headers.length + 1 := by
    intro headers
    induction headers with
    | nil => exact Nat.le_refl _
    | cons h rest ih =>
        unfold place
        split
        · exact Nat.le_refl _
        · split
          · exact Nat.le_succ _
          · exact Nat.succ_le_succ ih
  calc (w.insert header).size
      ≤ (place header w.headers).length := List.length_take_le' _ _
    _ ≤ w.size + 1 := hplace w.headers

/-- The heights of the retained headers. -/
def heights (w : Window) : Finset Height := (w.headers.map Header.height).toFinset

theorem card_toFinset_heights {headers : List Header}
    (hdesc : headers.Pairwise fun a b => b.height < a.height) :
    (headers.map Header.height).toFinset.card = headers.length := by
  have hnodup : (headers.map Header.height).Nodup := by
    refine List.pairwise_map.mpr (hdesc.imp fun {a b} hlt heq => ?_)
    exact UInt64.lt_irrefl _ (heq ▸ hlt)
  rw [List.toFinset_card_of_nodup hnodup, List.length_map]

theorem card_heights (w : Window) : w.heights.card = w.size := card_toFinset_heights w.descending

theorem toFinset_heights_place :
    ((place header w.headers).map Header.height).toFinset =
      Insert.insert header.height w.heights := by
  apply Finset.ext
  intro height
  simp only [heights, Finset.mem_insert, List.mem_toFinset, List.mem_map, mem_place w.descending]
  constructor
  · rintro ⟨h, rfl | ⟨hmem, -⟩, rfl⟩
    · exact .inl rfl
    · exact .inr ⟨h, hmem, rfl⟩
  · rintro (rfl | ⟨h, hmem, rfl⟩)
    · exact ⟨header, .inl rfl, rfl⟩
    · by_cases hsame : h.height = header.height
      · exact ⟨header, .inl rfl, hsame.symm⟩
      · exact ⟨h, .inr ⟨hmem, hsame⟩, rfl⟩

theorem size_insert :
    (w.insert header).size = min w.capacity (Insert.insert header.height w.heights).card := by
  rw [← toFinset_heights_place, card_toFinset_heights (descending_place w.descending)]
  exact List.length_take

theorem heights_insert_subset :
    (w.insert header).heights ⊆ Insert.insert header.height w.heights := by
  intro height hheight
  obtain ⟨h, hmem, rfl⟩ := List.mem_map.mp (List.mem_toFinset.mp hheight)
  rcases mem_insert hmem with rfl | hold
  · exact Finset.mem_insert_self _ _
  · exact Finset.mem_insert_of_mem (List.mem_toFinset.mpr (List.mem_map_of_mem hold))

theorem lastBy?_eq_some_iff {generator : Address} :
    w.lastBy? generator = some h ↔
      (h ∈ w.headers ∧ h.generator = generator) ∧
        ∀ p ∈ w.headers, p.generator = generator → p.height.toNat ≤ h.height.toNat := by
  have hhighest : ∀ {l : List Header}, l.Pairwise (fun a b => b.height < a.height) →
      ∀ {g}, l.find? (fun p => p.generator = generator) = some g →
      ∀ p ∈ l, p.generator = generator → p.height.toNat ≤ g.height.toNat := by
    intro l hdesc g hfind p hp hgenerator
    obtain ⟨-, before, after, rfl, hnone⟩ := List.find?_eq_some_iff_append.mp hfind
    rcases List.mem_append.mp hp with hbefore | hafter
    · have := hnone p hbefore
      simp [hgenerator] at this
    · rcases List.mem_cons.mp hafter with rfl | hafter
      · exact Nat.le_refl _
      · have hcons := (List.pairwise_append.mp hdesc).2.1
        have hlt := (List.pairwise_cons.mp hcons).1 p hafter
        exact Nat.le_of_lt (UInt64.lt_iff_toNat_lt.mp hlt)
  constructor
  · intro hlast
    refine ⟨⟨List.mem_of_find?_eq_some hlast, by simpa using List.find?_some hlast⟩, ?_⟩
    exact hhighest w.descending hlast
  · rintro ⟨⟨hmem, hgenerator⟩, hmax⟩
    cases hlast : w.lastBy? generator with
    | none =>
        have := List.find?_eq_none.mp hlast h hmem
        simp [hgenerator] at this
    | some g =>
        have hg : g ∈ w.headers := List.mem_of_find?_eq_some hlast
        have hgGenerator : g.generator = generator := by simpa using List.find?_some hlast
        have hle := hmax g hg hgGenerator
        have hge := hhighest w.descending hlast h hmem hgenerator
        rw [eq_of_height_eq hg hmem (UInt64.toNat_inj.mp (Nat.le_antisymm hle hge))]

/-! ## Neighbours -/

/-- Two headers of a generator with none of its headers between them do not contradict. -/
def NeighboursAgree (w : Window) : Prop :=
  ∀ a ∈ w.headers, ∀ b ∈ w.headers, a.generator = b.generator → a.height < b.height →
    (∀ p ∈ w.headers, p.generator = b.generator → ¬ (a.height < p.height ∧ p.height < b.height)) →
    a.contradiction? b = none

theorem neighboursAgree_empty (capacity : Nat) : (empty capacity).NeighboursAgree := by
  intro a ha
  simp [empty] at ha

/-- A window stays so if a header above it does not contradict the last one of its generator. -/
theorem NeighboursAgree.insert (hagree : w.NeighboursAgree)
    (habove : ∀ p ∈ w.headers, p.height < header.height)
    (hlast : ∀ previous, w.lastBy? header.generator = some previous →
      previous.contradiction? header = none) : (w.insert header).NeighboursAgree := by
  have hne : ∀ p ∈ w.headers, p.height ≠ header.height := by
    intro p hp heq
    exact UInt64.lt_irrefl _ (heq ▸ habove p hp)
  intro a ha b hb hgenerator hlt hbetween
  rcases mem_insert ha with rfl | haOld
  · rcases mem_insert hb with rfl | hbOld
    · exact absurd hlt (UInt64.lt_irrefl _)
    · exact absurd hlt (UInt64.lt_asymm (habove b hbOld))
  · have hbetweenOld : ∀ p ∈ w.headers, p.generator = b.generator →
        ¬ (a.height < p.height ∧ p.height < b.height) := by
      intro p hp hpGenerator hpBetween
      have hpKept := mem_insert_of_lt ha hp (hne p hp) hpBetween.1
      exact hbetween p hpKept hpGenerator hpBetween
    rcases mem_insert hb with rfl | hbOld
    · apply hlast
      refine lastBy?_eq_some_iff.mpr ⟨⟨haOld, hgenerator⟩, fun p hp hpGenerator => ?_⟩
      refine Nat.le_of_not_lt fun hpAbove => ?_
      exact hbetweenOld p hp hpGenerator ⟨UInt64.lt_iff_toNat_lt.mpr hpAbove, habove p hp⟩
    · exact hagree a haOld b hbOld hgenerator hlt hbetweenOld

end FinalityGadget.Window
