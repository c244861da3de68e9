import FinalityGadget.Proofs.Entries
import FinalityGadget.Proofs.Height
import FinalityGadget.Proofs.Window

/-!
# The window is the top of everything inserted

A window drops its lowest height whenever it grows beyond its capacity, which may be the height just
inserted. A dropped height never comes back by itself: from then on as many higher ones were
inserted as the window can hold. So the window has the heights that a choice among all inserted
headers at the end would have, and a retained header is the last one inserted at its height.
-/

namespace FinalityGadget

/-- The heights of some headers. -/
def Header.heightsOf (headers : List Header) : Finset Height :=
  (headers.map Header.height).toFinset

theorem Header.mem_heightsOf {headers : List Header} {height : Height} :
    height ∈ heightsOf headers ↔ ∃ h ∈ headers, h.height = height := by
  simp only [heightsOf, List.mem_toFinset, List.mem_map]

theorem Header.heightsOf_concat (headers : List Header) (header : Header) :
    heightsOf (headers ++ [header]) = insert header.height (heightsOf headers) := by
  rw [heightsOf, List.map_append, List.map_singleton, List.toFinset_append, List.toFinset_cons,
    List.toFinset_nil, insert_empty_eq, Finset.union_comm, heightsOf, Finset.insert_eq]

/-- The `n` highest of some heights, or all of them if they are fewer. -/
structure IsTop (n : Nat) (heights top : Finset Height) : Prop where
  subset : top ⊆ heights
  card_eq : top.card = min n heights.card
  lt_of_notMem : ∀ low ∈ heights, low ∉ top → ∀ high ∈ top, low < high

namespace IsTop

variable {n : Nat} {heights top kept : Finset Height} {height low : Height}

theorem empty (n : Nat) : IsTop n ∅ ∅ where
  subset := Finset.Subset.refl ∅
  card_eq := by rw [Finset.card_empty, Nat.min_zero]
  lt_of_notMem := fun _ hlow => absurd hlow (Finset.notMem_empty _)

theorem eq_of_card_le (h : IsTop n heights top) (hroom : heights.card ≤ n) : top = heights :=
  Finset.eq_of_subset_of_card_le h.subset (by rw [h.card_eq, Nat.min_eq_right hroom])

theorem card_eq_of_notMem (h : IsTop n heights top) (hlow : low ∈ heights) (hout : low ∉ top) :
    top.card = n := by
  have hfull : ¬ heights.card ≤ n := fun hroom => hout (h.eq_of_card_le hroom ▸ hlow)
  rw [h.card_eq]
  omega

/-- A further height enters the top only above one that was in it before. -/
theorem exists_lt_of_mem (hkept : IsTop n (insert height top) kept) (hcard : top.card = n)
    (hnew : height ∉ top) (hmem : height ∈ kept) : ∃ left ∈ top, left < height := by
  have hlarger : kept.card < (insert height top).card := by
    rw [hkept.card_eq, Finset.card_insert_of_notMem hnew, hcard]
    omega
  obtain ⟨left, hleft, hout⟩ := Finset.exists_mem_notMem_of_card_lt_card hlarger
  have hne : left ≠ height := fun heq => hout (heq ▸ hmem)
  exact ⟨left, (Finset.mem_insert.mp hleft).resolve_left hne,
    hkept.lt_of_notMem left hleft hout height hmem⟩

/-- The top of the old top and a further height is the top of all of them. -/
theorem insert (h : IsTop n heights top) (hkept : IsTop n (insert height top) kept) :
    IsTop n (Insert.insert height heights) kept where
  subset := hkept.subset.trans (Finset.insert_subset_insert height h.subset)
  card_eq := by
    rcases Nat.le_total heights.card n with hroom | hfull
    · rw [hkept.card_eq, h.eq_of_card_le hroom]
    · have hcard : top.card = n := by rw [h.card_eq, Nat.min_eq_left hfull]
      have htop := Finset.card_le_card (Finset.subset_insert height top)
      have hall := Finset.card_le_card (Finset.subset_insert height heights)
      rw [hkept.card_eq]
      omega
  lt_of_notMem := by
    intro low hlow hdropped high hhigh
    by_cases hcandidate : low ∈ Insert.insert height top
    · exact hkept.lt_of_notMem low hcandidate hdropped high hhigh
    · -- `low` was left out before, and so is below all that the old top had
      obtain ⟨hne, hout⟩ := not_or.mp (mt Finset.mem_insert.mpr hcandidate)
      have hold : low ∈ heights := (Finset.mem_insert.mp hlow).resolve_left hne
      have hbelow := h.lt_of_notMem low hold hout
      by_cases hhighTop : high ∈ top
      · exact hbelow high hhighTop
      · obtain rfl : high = height :=
          (Finset.mem_insert.mp (hkept.subset hhigh)).resolve_right hhighTop
        have hcard := h.card_eq_of_notMem hold hout
        obtain ⟨left, hleft, hlt⟩ := hkept.exists_lt_of_mem hcard hhighTop hhigh
        exact UInt64.lt_trans (hbelow left hleft) hlt

end IsTop

namespace Window

variable {w : Window} {header h : Header} {n : Nat} {inserted : List Header}

/-- The window after some headers were inserted one after the other. -/
def ofInserted (capacity : Nat) (inserted : List Header) : Window :=
  inserted.foldl insert (empty capacity)

theorem ofInserted_concat (capacity : Nat) (inserted : List Header) (header : Header) :
    ofInserted capacity (inserted ++ [header]) = (ofInserted capacity inserted).insert header := by
  rw [ofInserted, List.foldl_concat, ofInserted]

theorem capacity_ofInserted (capacity : Nat) (inserted : List Header) :
    (ofInserted capacity inserted).capacity = capacity := by
  induction inserted using List.reverseRecOn with
  | nil => rfl
  | append_singleton inserted header ih =>
      rw [ofInserted_concat]
      exact ih

theorem mem_heights {height : Height} : height ∈ w.heights ↔ ∃ h ∈ w.headers, h.height = height :=
  Header.mem_heightsOf

theorem isTop_heights_insert (w : Window) (header : Header) :
    IsTop w.capacity (Insert.insert header.height w.heights) (w.insert header).heights where
  subset := heights_insert_subset
  card_eq := by rw [card_heights, size_insert]
  lt_of_notMem := by
    intro low hlow hdropped high hhigh
    rw [← toFinset_heights_place] at hlow
    obtain ⟨placed, hplaced, rfl⟩ := Header.mem_heightsOf.mp hlow
    obtain ⟨kept, hkept, rfl⟩ := mem_heights.mp hhigh
    rcases mem_take_or_below (descending_place w.descending) hplaced with htaken | hbelow
    · exact absurd (mem_heights.mpr ⟨placed, htaken, rfl⟩) hdropped
    · exact hbelow kept hkept

theorem isTop_heights_ofInserted (capacity : Nat) (inserted : List Header) :
    IsTop capacity (Header.heightsOf inserted) (ofInserted capacity inserted).heights := by
  induction inserted using List.reverseRecOn with
  | nil => exact IsTop.empty capacity
  | append_singleton inserted header ih =>
      have hstep := isTop_heights_insert (ofInserted capacity inserted) header
      rw [capacity_ofInserted] at hstep
      rw [ofInserted_concat, Header.heightsOf_concat]
      exact ih.insert hstep

theorem size_ofInserted (capacity : Nat) (inserted : List Header) :
    (ofInserted capacity inserted).size = min capacity (Header.heightsOf inserted).card := by
  rw [← card_heights, (isTop_heights_ofInserted capacity inserted).card_eq]

/-- The header inserted last at a height. -/
def lastInserted? (inserted : List Header) (height : Height) : Option Header :=
  lastValue? (inserted.map fun h => (h.height, h)) height

theorem lastInserted?_concat (inserted : List Header) (header : Header) (height : Height) :
    lastInserted? (inserted ++ [header]) height =
      if header.height = height then some header else lastInserted? inserted height := by
  rw [lastInserted?, List.map_append, List.map_singleton, lastValue?_concat, lastInserted?]

theorem lastInserted?_of_mem (hmem : h ∈ (ofInserted n inserted).headers) :
    lastInserted? inserted h.height = some h := by
  induction inserted using List.reverseRecOn generalizing h with
  | nil => simp [ofInserted, empty] at hmem
  | append_singleton inserted header ih =>
      rw [ofInserted_concat] at hmem
      rw [lastInserted?_concat]
      rcases (mem_place (ofInserted n inserted).descending).mp
        (List.mem_of_mem_take hmem) with rfl | ⟨hold, hne⟩
      · rw [if_pos rfl]
      · rw [if_neg (Ne.symm hne)]
        exact ih hold

theorem get?_ofInserted (capacity : Nat) (inserted : List Header) (height : Height) :
    (ofInserted capacity inserted).get? height =
      if height ∈ (ofInserted capacity inserted).heights then lastInserted? inserted height
      else none := by
  split
  · rename_i hheight
    obtain ⟨h, hmem, rfl⟩ := mem_heights.mp hheight
    rw [lastInserted?_of_mem hmem]
    exact get?_eq_some_iff.mpr ⟨hmem, rfl⟩
  · rename_i hheight
    refine Option.eq_none_iff_forall_ne_some.mpr fun h hget => hheight ?_
    obtain ⟨hmem, hat⟩ := get?_eq_some_iff.mp hget
    exact mem_heights.mpr ⟨h, hmem, hat⟩

theorem lastBy?_eq_none_iff {generator : Address} :
    w.lastBy? generator = none ↔ ∀ h ∈ w.headers, h.generator ≠ generator := by
  simp [lastBy?]

/-- A window, however it was filled, has the highest heights inserted, as many as it can hold or all
of them, each with the header inserted last at this height, and finds a header by its own height.
They stand in descending order, and the last header of a generator is the highest one that the
generator forged among them, if there is one. -/
theorem ofInserted_exact (capacity : Nat) (inserted : List Header) :
    let w := ofInserted capacity inserted
    IsTop capacity (Header.heightsOf inserted) w.heights ∧
    w.size = min capacity (Header.heightsOf inserted).card ∧
    (∀ height, w.get? height =
      if height ∈ w.heights then lastInserted? inserted height else none) ∧
    (∀ h, h ∈ w.headers ↔ w.get? h.height = some h) ∧
    (w.headers.Pairwise fun a b => b.height < a.height) ∧
    ∀ generator,
      (∀ h, w.lastBy? generator = some h ↔
        (h ∈ w.headers ∧ h.generator = generator) ∧
          ∀ p ∈ w.headers, p.generator = generator → p.height.toNat ≤ h.height.toNat) ∧
      (w.lastBy? generator = none ↔ ∀ h ∈ w.headers, h.generator ≠ generator) := by
  intro w
  have htop : IsTop capacity (Header.heightsOf inserted) w.heights :=
    isTop_heights_ofInserted capacity inserted
  refine ⟨htop, size_ofInserted capacity inserted, get?_ofInserted capacity inserted, fun h => ?_,
    w.descending, fun generator => ⟨fun h => lastBy?_eq_some_iff, lastBy?_eq_none_iff⟩⟩
  rw [get?_eq_some_iff]
  exact (and_iff_left rfl).symm

example :
    let header : Height → Nat → Header := fun height id =>
      ⟨height, .ofNat id, .ofNat 0, .ofNat 1, 0, 0, 0, 0⟩
    ofInserted 2 [header 5 1, header 3 2, header 5 3, header 9 4, header 4 5] =
      ofInserted 2 [header 9 4, header 5 3] := by
  decide +kernel

end Window

end FinalityGadget
