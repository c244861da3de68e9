import FinalityGadget.Error
import Mathlib.Data.Finset.Card

/-!
# Written records are read back

A record that is read back from its own bytes is read back from the key it was written to. A map is
written entry by entry in the order of its keys, which are distinct, so reading inserts every entry
exactly once. Whatever is read took its bytes from the input, so a map that was read is not larger
than the input has room for.
-/

namespace FinalityGadget

theorem bind_eq_ok_iff {ε α β : Type} {x : Except ε α} {f : α → Except ε β} {b : β} :
    x >>= f = .ok b ↔ ∃ a, x = .ok a ∧ f a = .ok b := by
  cases x with
  | error e => simp [bind, Except.bind]
  | ok a => simp [bind, Except.bind]

section Records

variable {α : Type} {f : Format α} {a : α}

theorem Format.Reads.read_append (h : f.Reads a) (rest : List UInt8) :
    f.read (f.encode a ++ rest) = .ok a := by
  rw [read, h rest]
  rfl

theorem Format.Reads.read_encode (h : f.Reads a) : f.read (f.encode a) = .ok a := by
  have hread := h.read_append []
  rwa [List.append_nil] at hread

theorem View.record?_of_reads {view : View} {key : Key} (h : f.Reads a)
    (hview : view key = .ok (some (f.encode a))) : view.record? key f = .ok (some a) := by
  simp only [record?, hview, h.read_encode]

end Records

section Maps

variable {α β : Type} [DecidableEq α] [Ord α] [Std.TransOrd α] [Std.LawfulEqOrd α]

theorem size_le_card_of_mem (m : Std.ExtTreeMap α β)
    (keys : Finset α) (hkeys : ∀ k, k ∈ m → k ∈ keys) : m.size ≤ keys.card := by
  have hnodup : m.keys.Nodup := Std.ExtTreeMap.nodup_keys
  have hsubset : m.keys.toFinset ⊆ keys := by
    intro k hk
    exact hkeys k (Std.ExtTreeMap.mem_keys.mp (List.mem_toFinset.mp hk))
  calc m.size = m.keys.length := Std.ExtTreeMap.length_keys.symm
    _ = m.keys.toFinset.card := (List.toFinset_card_of_nodup hnodup).symm
    _ ≤ keys.card := Finset.card_le_card hsubset

theorem ofList_toList (m : Std.ExtTreeMap α β) :
    Std.ExtTreeMap.ofList m.toList compare = m := by
  have hdistinct := Std.ExtTreeMap.distinct_keys_toList (t := m)
  apply Std.ExtTreeMap.ext_getElem?
  intro k
  cases hk : m[k]? with
  | some v =>
      have hmem : (k, v) ∈ m.toList := Std.ExtTreeMap.mem_toList_iff_getElem?_eq_some.mpr hk
      exact Std.ExtTreeMap.getElem?_ofList_of_mem Std.ReflOrd.compare_self hdistinct hmem
  | none =>
      have hnot : k ∉ m := by
        rw [Std.ExtTreeMap.mem_iff_isSome_getElem?, hk]
        simp
      have hnotOfList : k ∉ Std.ExtTreeMap.ofList m.toList compare := by
        rw [Std.ExtTreeMap.mem_ofList, Std.ExtTreeMap.map_fst_toList_eq_keys]
        simpa using hnot
      rw [Std.ExtTreeMap.mem_iff_isSome_getElem?] at hnotOfList
      simpa using hnotOfList

namespace Format

theorem Reads.map {f : Format α} {g : Format β} {m : Std.ExtTreeMap α β}
    (hf : ∀ a, f.Reads a) (hg : ∀ b, g.Reads b) (hsize : m.size ≤ Word.maxNat) :
    (Format.map f g).Reads m := by
  have hlist : (Format.list (f.pair g)).Reads m.toList := by
    apply Reads.list
    · exact fun entry _ => (hf entry.1).pair (hg entry.2)
    · rwa [Std.ExtTreeMap.length_toList]
  refine hlist.via ?_
  rw [← Std.ExtTreeMap.ofList_eq_foldl]
  exact ofList_toList m

end Format

end Maps

/-! ## The bytes that reading takes -/

namespace Format

variable {α β : Type} {f : Format α} {g : Format β} {k l : Nat}

/-- Reading a value takes at least `k` bytes. -/
def Takes (f : Format α) (k : Nat) : Prop :=
  ∀ bytes a rest, f.decode bytes = .ok (a, rest) → rest.length + k ≤ bytes.length

theorem append_of_takeBytes {n : Nat} {bytes taken rest : List UInt8}
    (h : takeBytes n bytes = .ok (taken, rest)) : taken ++ rest = bytes := by
  rw [takeBytes_eq] at h
  split_ifs at h
  obtain ⟨rfl, rfl⟩ := Prod.mk.inj (Except.ok.inj h)
  exact List.take_append_drop n bytes

theorem length_of_takeBytes_rest {n : Nat} {bytes taken rest : List UInt8}
    (h : takeBytes n bytes = .ok (taken, rest)) : rest.length + n = bytes.length := by
  rw [← append_of_takeBytes h, List.length_append, length_of_takeBytes h, Nat.add_comm]

theorem takeBytes_of_bytes {n : Nat} {input rest : List UInt8} {b : Bytes n}
    (h : (bytes n).decode input = .ok (b, rest)) : takeBytes n input = .ok (b.toList, rest) := by
  unfold bytes at h
  simp only at h
  split at h
  · rename_i taken left htake
    obtain ⟨rfl, rfl⟩ := Prod.mk.inj (Except.ok.inj h)
    exact htake
  · simp at h

theorem takes_word : word.Takes 8 := by
  intro bytes a rest h
  obtain ⟨⟨taken, left⟩, htake, hvalue⟩ := bind_eq_ok_iff.mp h
  obtain ⟨-, rfl⟩ := Prod.mk.inj (Except.ok.inj hvalue)
  exact Nat.le_of_eq (length_of_takeBytes_rest htake)

theorem takes_bytes (n : Nat) : (bytes n).Takes n := by
  intro input a rest h
  exact Nat.le_of_eq (length_of_takeBytes_rest (takeBytes_of_bytes h))

theorem Takes.pair (hf : f.Takes k) (hg : g.Takes l) : (f.pair g).Takes (k + l) := by
  intro bytes p rest h
  obtain ⟨⟨a, middle⟩, ha, hrest⟩ := bind_eq_ok_iff.mp h
  obtain ⟨⟨b, left⟩, hb, hp⟩ := bind_eq_ok_iff.mp hrest
  obtain ⟨-, rfl⟩ := Prod.mk.inj (Except.ok.inj hp)
  have hfirst := hf _ _ _ ha
  have hsecond := hg _ _ _ hb
  omega

theorem Takes.via {toα : β → α} {ofα : α → β} (hf : f.Takes k) : (f.via toα ofα).Takes k := by
  intro bytes b rest h
  obtain ⟨⟨a, left⟩, ha, hb⟩ := bind_eq_ok_iff.mp h
  obtain ⟨-, rfl⟩ := Prod.mk.inj (Except.ok.inj hb)
  exact hf _ _ _ ha

theorem Takes.decodeItems (hf : f.Takes k) {count : Nat} {bytes rest : List UInt8}
    {items : List α} (h : decodeItems f count bytes = .ok (items, rest)) :
    items.length = count ∧ rest.length + count * k ≤ bytes.length := by
  induction count generalizing bytes items with
  | zero =>
      obtain ⟨rfl, rfl⟩ := Prod.mk.inj (Except.ok.inj h)
      simp
  | succ count ih =>
      obtain ⟨⟨item, middle⟩, hitem, hrest⟩ := bind_eq_ok_iff.mp h
      obtain ⟨⟨others, left⟩, hothers, hall⟩ := bind_eq_ok_iff.mp hrest
      obtain ⟨rfl, rfl⟩ := Prod.mk.inj (Except.ok.inj hall)
      obtain ⟨hlength, htaken⟩ := ih hothers
      have hfirst := hf _ _ _ hitem
      refine ⟨by rw [List.length_cons, hlength], ?_⟩
      rw [Nat.succ_mul]
      omega

theorem Takes.map [DecidableEq α] [Ord α] [Std.TransOrd α] [Std.LawfulEqOrd α] (hf : f.Takes k)
    (hg : g.Takes l) {m : Std.ExtTreeMap α β} {bytes rest : List UInt8}
    (h : (Format.map f g).decode bytes = .ok (m, rest)) :
    rest.length + m.size * (k + l) + 8 ≤ bytes.length := by
  obtain ⟨⟨entries, left⟩, hlist, hmap⟩ := bind_eq_ok_iff.mp h
  obtain ⟨rfl, rfl⟩ := Prod.mk.inj (Except.ok.inj hmap)
  obtain ⟨⟨count, middle⟩, hcount, hitems⟩ := bind_eq_ok_iff.mp hlist
  obtain ⟨hlength, htaken⟩ := (hf.pair hg).decodeItems hitems
  have hword := takes_word _ _ _ hcount
  have hsize : (entries.foldl (fun m entry => m.insert entry.1 entry.2) ∅ :
      Std.ExtTreeMap α β).size ≤ count.toNat := by
    rw [← hlength, ← Std.ExtTreeMap.ofList_eq_foldl]
    exact Std.ExtTreeMap.size_ofList_le
  have hmul := Nat.mul_le_mul_right (k + l) hsize
  simp only
  omega

end Format

end FinalityGadget
