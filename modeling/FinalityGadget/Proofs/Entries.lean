import Mathlib.Data.List.Induction
import Mathlib.Data.List.Sort
import Std.Data.ExtTreeMap

/-!
# Maps made from entries

A list of entries is put into a map one after the other, so of equal keys the last one counts. The
map lists its entries in ascending order of the keys, in whatever order they were put into it.
-/

namespace FinalityGadget

variable {α β : Type}

section LastValue

variable [DecidableEq α]

/-- The value of the last entry with a key. -/
def lastValue? (entries : List (α × β)) (key : α) : Option β := entries.reverse.lookup key

@[simp] theorem lastValue?_nil (key : α) : lastValue? ([] : List (α × β)) key = none := rfl

theorem lastValue?_concat (entries : List (α × β)) (k : α) (v : β) (key : α) :
    lastValue? (entries ++ [(k, v)]) key = if k = key then some v else lastValue? entries key := by
  by_cases hkey : k = key
  · simp [lastValue?, hkey]
  · have hbeq : (key == k) = false := by simpa using fun h => hkey h.symm
    simp [lastValue?, List.lookup_cons, hkey, hbeq]

theorem mem_of_lastValue? {entries : List (α × β)} {k : α} {v : β}
    (hlast : lastValue? entries k = some v) : (k, v) ∈ entries := by
  obtain ⟨l₁, l₂, hsplit, -⟩ := List.lookup_eq_some_iff.mp hlast
  rw [← List.mem_reverse, hsplit]
  simp

theorem exists_lastValue?_of_mem {entries : List (α × β)} {k : α} {v : β}
    (hmem : (k, v) ∈ entries) : ∃ last, lastValue? entries k = some last := by
  cases hlast : lastValue? entries k with
  | some last => exact ⟨last, rfl⟩
  | none =>
      have hne := List.lookup_eq_none_iff.mp hlast (k, v) (List.mem_reverse.mpr hmem)
      simp at hne

theorem lastValue?_eq_of_mem_iff {entries : List (α × β)} {k : α} {o : Option β}
    (hentries : ∀ v, (k, v) ∈ entries ↔ o = some v) : lastValue? entries k = o := by
  cases o with
  | some v =>
      obtain ⟨last, hlast⟩ := exists_lastValue?_of_mem ((hentries v).mpr rfl)
      have hsame := (hentries last).mp (mem_of_lastValue? hlast)
      rw [hlast, hsame]
  | none =>
      cases hlast : lastValue? entries k with
      | none => rfl
      | some last => simpa using (hentries last).mp (mem_of_lastValue? hlast)

end LastValue

section Maps

variable [Ord α] [Std.TransOrd α] [Std.LawfulEqOrd α]

theorem getElem?_foldl_insert [DecidableEq α] (entries : List (α × β)) (m : Std.ExtTreeMap α β)
    (key : α) :
    (entries.foldl (fun m entry => m.insert entry.1 entry.2) m)[key]? =
      (lastValue? entries key).or m[key]? := by
  induction entries using List.reverseRecOn with
  | nil => rfl
  | append_singleton entries entry ih =>
      obtain ⟨k, v⟩ := entry
      rw [List.foldl_append, List.foldl_cons, List.foldl_nil, Std.ExtTreeMap.getElem?_insert, ih,
        lastValue?_concat]
      simp only [Std.LawfulEqCmp.compare_eq_iff_eq]
      split
      · rfl
      · rfl

end Maps

section Ascending

variable [Ord α]

/-- The entries stand in ascending order of their keys, each key once. -/
def Ascending (entries : List (α × β)) : Prop :=
  entries.Pairwise fun a b => compare a.1 b.1 = .lt

variable [Std.LawfulEqOrd α]

theorem Ascending.eq_of_mem {entries : List (α × β)} {k : α} {v w : β}
    (hascending : Ascending entries) (hv : (k, v) ∈ entries) (hw : (k, w) ∈ entries) : v = w := by
  induction hascending with
  | nil => simp at hv
  | cons hbelow _ ih =>
      rcases List.mem_cons.mp hv with hfirst | hrest
      · subst hfirst
        rcases List.mem_cons.mp hw with hfirst' | hrest'
        · exact (Prod.ext_iff.mp hfirst').2.symm
        · simpa using hbelow _ hrest'
      · rcases List.mem_cons.mp hw with hfirst' | hrest'
        · subst hfirst'
          simpa using hbelow _ hrest
        · exact ih hrest hrest'

theorem Ascending.lookup_eq_some_iff [DecidableEq α] {entries : List (α × β)}
    (hascending : Ascending entries) {k : α} {v : β} :
    entries.lookup k = some v ↔ (k, v) ∈ entries := by
  constructor
  · intro hlookup
    obtain ⟨l₁, l₂, rfl, -⟩ := List.lookup_eq_some_iff.mp hlookup
    simp
  · intro hmem
    cases hlookup : entries.lookup k with
    | none => simpa using List.lookup_eq_none_iff.mp hlookup _ hmem
    | some w =>
        obtain ⟨l₁, l₂, hsplit, -⟩ := List.lookup_eq_some_iff.mp hlookup
        have hmem' : (k, w) ∈ entries := by
          rw [hsplit]
          simp
        rw [hascending.eq_of_mem hmem hmem']

variable [Std.TransOrd α]

theorem toList_eq_of_ascending {m : Std.ExtTreeMap α β} {entries : List (α × β)}
    (hascending : Ascending entries)
    (hentries : ∀ k v, (k, v) ∈ entries ↔ m[k]? = some v) : m.toList = entries := by
  have hirrefl : Std.Irrefl fun a b : α × β => compare a.1 b.1 = .lt := ⟨fun a h => by simp at h⟩
  have hantisymm : Std.Antisymm fun a b : α × β => compare a.1 b.1 = .lt :=
    ⟨fun a b hab hba => absurd hba (Std.OrientedCmp.not_lt_of_lt hab)⟩
  apply List.Pairwise.eq_of_mem_iff Std.ExtTreeMap.ordered_keys_toList hascending
  rintro ⟨k, v⟩
  rw [Std.ExtTreeMap.mem_toList_iff_getElem?_eq_some, hentries]

theorem toList_foldl_insert [DecidableEq α] {entries : List (α × β)}
    (hascending : Ascending entries) :
    (entries.foldl (fun m entry => m.insert entry.1 entry.2) (∅ : Std.ExtTreeMap α β)).toList =
      entries := by
  apply toList_eq_of_ascending hascending
  intro k v
  rw [getElem?_foldl_insert, Std.ExtTreeMap.getElem?_empty, Option.or_none]
  constructor
  · intro hmem
    obtain ⟨last, hlast⟩ := exists_lastValue?_of_mem hmem
    rw [hlast, hascending.eq_of_mem (mem_of_lastValue? hlast) hmem]
  · exact mem_of_lastValue?

theorem foldl_insert_toList [DecidableEq α] (m : Std.ExtTreeMap α β) :
    m.toList.foldl (fun m entry => m.insert entry.1 entry.2) ∅ = m := by
  rw [← Std.ExtTreeMap.toList_inj]
  exact toList_foldl_insert Std.ExtTreeMap.ordered_keys_toList

end Ascending

end FinalityGadget
