import FinalityGadget.Proofs.Codec
import FinalityGadget.Proofs.Entries

/-!
# Formats of fixed width

In many formats every value takes the same number of bytes. Reading then fails in two ways only: a
byte is at fault, or the input ends too early; in some formats no byte is ever at fault. Items in a
row stand at multiples of their width, so a list can be read if and only if no item is at fault and
there is room for as many items as its length announces.
-/

namespace FinalityGadget

/-- The word at a place in a byte string. -/
def wordAt (bytes : List UInt8) (offset : Nat) : Word :=
  UInt64.ofNat (ofLittleEndian ((bytes.drop offset).take 8))

/-- The byte string of `n` bytes at a place in a longer one. -/
def bytesAt (n : Nat) (bytes : List UInt8) (offset : Nat) : Bytes n :=
  (Bytes.ofList? ((bytes.drop offset).take n)).getD default

theorem wordAt_drop (bytes : List UInt8) (offset further : Nat) :
    wordAt (bytes.drop offset) further = wordAt bytes (offset + further) := by
  rw [wordAt, wordAt, List.drop_drop]

theorem bytesAt_drop (n : Nat) (bytes : List UInt8) (offset further : Nat) :
    bytesAt n (bytes.drop offset) further = bytesAt n bytes (offset + further) := by
  rw [bytesAt, bytesAt, List.drop_drop]

namespace Format

variable {α β : Type}

/-- Reading takes `k` bytes and gives their `value`, unless one of them is at `fault` or there are
fewer. A fault is found before the end of the input, as bytes that are not there have none. -/
structure IsChecked (f : Format α) (k : Nat) (fault : List UInt8 → Option UInt8)
    (value : List UInt8 → α) : Prop where
  decode_eq : ∀ bytes, f.decode bytes =
    match fault bytes with
    | some b => .error (.invalidBool b)
    | none => if k ≤ bytes.length then .ok (value bytes, bytes.drop k) else .error .endOfInput
  fault_nil : fault [] = none

/-- Reading takes `k` bytes and gives their `value`, unless there are fewer. -/
def IsFixed (f : Format α) (k : Nat) (value : List UInt8 → α) : Prop :=
  ∀ bytes, f.decode bytes =
    if k ≤ bytes.length then .ok (value bytes, bytes.drop k) else .error .endOfInput

theorem isFixed_iff_isChecked {f : Format α} {k : Nat} {value : List UInt8 → α} :
    f.IsFixed k value ↔ f.IsChecked k (fun _ => none) value :=
  ⟨fun h => ⟨h, rfl⟩, fun h => h.decode_eq⟩

theorem isFixed_word : word.IsFixed 8 (wordAt · 0) := by
  intro bytes
  simp only [word, takeBytes_eq]
  split
  · rfl
  · rfl

theorem isFixed_bytes (n : Nat) : (bytes n).IsFixed n (bytesAt n · 0) := by
  intro input
  simp only [bytes]
  split
  · rename_i taken rest htake
    have hlength := length_of_takeBytes htake
    rw [takeBytes_eq] at htake
    split_ifs at htake with hle
    obtain ⟨rfl, rfl⟩ := Prod.mk.inj (Except.ok.inj htake)
    rw [if_pos hle, bytesAt, List.drop_zero, Bytes.ofList?, dif_pos hlength]
    rfl
  · rename_i e htake
    rw [takeBytes_eq] at htake
    split_ifs at htake with hle
    rw [if_neg hle, Except.error.inj htake]

theorem isChecked_bool :
    bool.IsChecked 1 (fun bytes => bytes.head?.filter (1 < ·)) (·.head? = some 1) where
  decode_eq bytes := by
    cases bytes with
    | nil => rfl
    | cons b rest =>
        simp only [bool, List.head?_cons, Option.filter_some]
        by_cases hzero : b = 0
        · simp [hzero]
        · by_cases hone : b = 1
          · simp [hone]
          · have hlarge : 1 < b := by
              rw [UInt8.lt_iff_toNat_lt]
              rw [← UInt8.toNat_inj] at hzero hone
              simp only [UInt8.toNat_zero, UInt8.toNat_one] at hzero hone ⊢
              omega
            simp [hzero, hone, hlarge]
  fault_nil := rfl

variable {f : Format α} {g : Format β} {k l : Nat} {valueF : List UInt8 → α}
  {valueG : List UInt8 → β} {faultF faultG : List UInt8 → Option UInt8}

theorem IsChecked.pair (hf : f.IsChecked k faultF valueF) (hg : g.IsChecked l faultG valueG) :
    (f.pair g).IsChecked (k + l) (fun bytes => (faultF bytes).or (faultG (bytes.drop k)))
      fun bytes => (valueF bytes, valueG (bytes.drop k)) where
  decode_eq bytes := by
    simp only [Format.pair, hf.decode_eq bytes]
    cases faultF bytes with
    | some b => rfl
    | none =>
        by_cases hfirst : k ≤ bytes.length
        · simp only [if_pos hfirst, bind, Except.bind, hg.decode_eq, Option.none_or,
            List.length_drop, List.drop_drop, Nat.le_sub_iff_add_le' hfirst]
          cases faultG (bytes.drop k) with
          | some b => rfl
          | none =>
              by_cases hroom : k + l ≤ bytes.length
              · simp only [if_pos hroom]
                rfl
              · simp only [if_neg hroom]
        · have hroom : ¬ k + l ≤ bytes.length := by omega
          rw [List.drop_eq_nil_of_le (by omega), hg.fault_nil]
          simp only [if_neg hfirst, Option.none_or, if_neg hroom]
          rfl
  fault_nil := by rw [List.drop_nil, hf.fault_nil, hg.fault_nil, Option.none_or]

theorem IsChecked.via (hf : f.IsChecked k faultF valueF) (toα : β → α) (ofα : α → β) :
    (f.via toα ofα).IsChecked k faultF fun bytes => ofα (valueF bytes) where
  decode_eq bytes := by
    simp only [Format.via, hf.decode_eq bytes]
    cases faultF bytes with
    | some b => rfl
    | none =>
        simp only
        split
        · rfl
        · rfl
  fault_nil := hf.fault_nil

theorem IsFixed.pair (hf : f.IsFixed k valueF) (hg : g.IsFixed l valueG) :
    (f.pair g).IsFixed (k + l) fun bytes => (valueF bytes, valueG (bytes.drop k)) :=
  isFixed_iff_isChecked.mpr
    ((isFixed_iff_isChecked.mp hf).pair (isFixed_iff_isChecked.mp hg))

theorem IsFixed.via (hf : f.IsFixed k valueF) (toα : β → α) (ofα : α → β) :
    (f.via toα ofα).IsFixed k fun bytes => ofα (valueF bytes) :=
  isFixed_iff_isChecked.mpr ((isFixed_iff_isChecked.mp hf).via toα ofα)

/-! ## Items in a row -/

/-- The items that stand one after the other, each of width `k`. -/
def itemsOf (value : List UInt8 → α) (k count : Nat) (bytes : List UInt8) : List α :=
  (List.range count).map fun i => value (bytes.drop (k * i))

/-- The first byte at fault in items that stand one after the other. -/
def faultOf (fault : List UInt8 → Option UInt8) (k count : Nat) (bytes : List UInt8) :
    Option UInt8 :=
  (List.range count).findSome? fun i => fault (bytes.drop (k * i))

theorem itemsOf_succ (value : List UInt8 → α) (k count : Nat) (bytes : List UInt8) :
    itemsOf value k (count + 1) bytes = value bytes :: itemsOf value k count (bytes.drop k) := by
  simp only [itemsOf, List.range_succ_eq_map, List.map_cons, List.map_map, Nat.mul_zero,
    List.drop_zero, List.drop_drop]
  congr 1
  apply List.map_congr_left
  intro i _
  simp only [Function.comp_apply, Nat.mul_succ, Nat.add_comm]

theorem faultOf_succ (fault : List UInt8 → Option UInt8) (k count : Nat) (bytes : List UInt8) :
    faultOf fault k (count + 1) bytes =
      (fault bytes).or (faultOf fault k count (bytes.drop k)) := by
  have hothers : (fun i => fault (bytes.drop (k * i))) ∘ Nat.succ =
      fun i => fault ((bytes.drop k).drop (k * i)) := by
    funext i
    rw [Function.comp_apply, Nat.mul_succ, List.drop_drop, Nat.add_comm]
  rw [faultOf, List.range_succ_eq_map, List.findSome?_cons, List.findSome?_map, hothers,
    Nat.mul_zero, List.drop_zero, faultOf]
  cases fault bytes with
  | none => rfl
  | some b => rfl

theorem faultOf_eq_none_iff {fault : List UInt8 → Option UInt8} {k count : Nat}
    {bytes : List UInt8} :
    faultOf fault k count bytes = none ↔ ∀ i < count, fault (bytes.drop (k * i)) = none := by
  simp only [faultOf, List.findSome?_eq_none_iff, List.mem_range]

theorem faultOf_eq_some_iff {fault : List UInt8 → Option UInt8} {k count : Nat}
    {bytes : List UInt8} {b : UInt8} :
    faultOf fault k count bytes = some b ↔
      ∃ i < count, fault (bytes.drop (k * i)) = some b ∧
        ∀ j < i, fault (bytes.drop (k * j)) = none := by
  induction count with
  | zero => simp [faultOf]
  | succ count ih =>
      have hconcat : faultOf fault k (count + 1) bytes =
          (faultOf fault k count bytes).or (fault (bytes.drop (k * count))) := by
        simp [faultOf, List.range_succ]
      rw [hconcat, Option.or_eq_some_iff, ih, faultOf_eq_none_iff]
      constructor
      · rintro (⟨i, hi, hfault⟩ | ⟨hbefore, hfault⟩)
        · exact ⟨i, Nat.lt_succ_of_lt hi, hfault⟩
        · exact ⟨count, Nat.lt_succ_self count, hfault, hbefore⟩
      · rintro ⟨i, hi, hfault, hbefore⟩
        rcases Nat.lt_succ_iff_lt_or_eq.mp hi with hlt | rfl
        · exact .inl ⟨i, hlt, hfault, hbefore⟩
        · exact .inr ⟨hbefore, hfault⟩

theorem IsChecked.faultOf_nil (hf : f.IsChecked k faultF valueF) (count : Nat) :
    faultOf faultF k count [] = none := by
  refine faultOf_eq_none_iff.mpr fun i _ => ?_
  rw [List.drop_nil, hf.fault_nil]

theorem IsChecked.decodeItems (hf : f.IsChecked k faultF valueF) (count : Nat)
    (bytes : List UInt8) :
    decodeItems f count bytes =
      match faultOf faultF k count bytes with
      | some b => .error (.invalidBool b)
      | none =>
        if k * count ≤ bytes.length then
          .ok (itemsOf valueF k count bytes, bytes.drop (k * count))
        else .error .endOfInput := by
  induction count generalizing bytes with
  | zero => rfl
  | succ count ih =>
      have hroom : k * (count + 1) = k + k * count := by rw [Nat.mul_succ, Nat.add_comm]
      rw [Format.decodeItems, hf.decode_eq bytes, faultOf_succ, itemsOf_succ, hroom]
      cases faultF bytes with
      | some b => rfl
      | none =>
          by_cases hfirst : k ≤ bytes.length
          · simp only [if_pos hfirst, bind, Except.bind, ih, Option.none_or, List.length_drop,
              List.drop_drop, Nat.le_sub_iff_add_le' hfirst]
            cases faultOf faultF k count (bytes.drop k) with
            | some b => rfl
            | none =>
                by_cases hothers : k + k * count ≤ bytes.length
                · simp only [if_pos hothers]
                  rfl
                · simp only [if_neg hothers]
          · have hnone : ¬ k + k * count ≤ bytes.length := by omega
            rw [List.drop_eq_nil_of_le (show bytes.length ≤ k by omega), hf.faultOf_nil]
            simp only [if_neg hfirst, Option.none_or, if_neg hnone]
            rfl

theorem IsChecked.decode_list (hf : f.IsChecked k faultF valueF) (bytes : List UInt8) :
    (list f).decode bytes =
      match faultOf faultF k (wordAt bytes 0).toNat (bytes.drop 8) with
      | some b => .error (.invalidBool b)
      | none =>
        if 8 + k * (wordAt bytes 0).toNat ≤ bytes.length then
          .ok (itemsOf valueF k (wordAt bytes 0).toNat (bytes.drop 8),
            bytes.drop (8 + k * (wordAt bytes 0).toNat))
        else .error .endOfInput := by
  simp only [list, isFixed_word bytes]
  by_cases hlength : 8 ≤ bytes.length
  · simp only [if_pos hlength, bind, Except.bind, hf.decodeItems, List.length_drop, List.drop_drop,
      Nat.le_sub_iff_add_le' hlength]
  · have hnone : ¬ 8 + k * (wordAt bytes 0).toNat ≤ bytes.length := by omega
    rw [List.drop_eq_nil_of_le (show bytes.length ≤ 8 by omega), hf.faultOf_nil]
    simp only [if_neg hlength, if_neg hnone]
    rfl

theorem IsFixed.decode_list (hf : f.IsFixed k valueF) (bytes : List UInt8) :
    (list f).decode bytes =
      if 8 + k * (wordAt bytes 0).toNat ≤ bytes.length then
        .ok (itemsOf valueF k (wordAt bytes 0).toNat (bytes.drop 8),
          bytes.drop (8 + k * (wordAt bytes 0).toNat))
      else .error .endOfInput := by
  have hnone : faultOf (fun _ => none) k (wordAt bytes 0).toNat (bytes.drop 8) = none :=
    faultOf_eq_none_iff.mpr fun _ _ => rfl
  rw [(isFixed_iff_isChecked.mp hf).decode_list bytes, hnone]

/-- The map of some entries, the last one of each key. -/
def mapOf [Ord α] [Std.TransOrd α] (entries : List (α × β)) : Std.ExtTreeMap α β :=
  entries.foldl (fun m entry => m.insert entry.1 entry.2) ∅

theorem decode_map [Ord α] [Std.TransOrd α] {valueOf : List UInt8 → α × β}
    (hfixed : (f.pair g).IsFixed k valueOf) (bytes : List UInt8) :
    (map f g).decode bytes =
      if 8 + k * (wordAt bytes 0).toNat ≤ bytes.length then
        .ok (mapOf (itemsOf valueOf k (wordAt bytes 0).toNat (bytes.drop 8)),
          bytes.drop (8 + k * (wordAt bytes 0).toNat))
      else .error .endOfInput := by
  simp only [map, via, hfixed.decode_list bytes]
  split
  · rfl
  · rfl

theorem getElem?_mapOf [Ord α] [Std.TransOrd α] [Std.LawfulEqOrd α] [DecidableEq α]
    (entries : List (α × β)) (key : α) : (mapOf entries)[key]? = lastValue? entries key := by
  rw [mapOf, getElem?_foldl_insert]
  simp

theorem size_mapOf_le [Ord α] [Std.TransOrd α] (entries : List (α × β)) :
    (mapOf entries).size ≤ entries.length := by
  rw [mapOf, ← Std.ExtTreeMap.ofList_eq_foldl]
  exact Std.ExtTreeMap.size_ofList_le

end Format

end FinalityGadget
