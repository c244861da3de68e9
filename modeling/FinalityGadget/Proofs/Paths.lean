import FinalityGadget.Config.Tree
import Mathlib.Data.List.Lex

/-!
# Paths and their order

The segments of a path make up the path again when they are joined with points, and a path that
leads to a part of the configuration comes before every path that goes on below this part. Paths are
compared by their characters, which is the order of their bytes: the encoding of a character is
never a beginning of another, and a greater character has the greater encoding.
-/

namespace FinalityGadget.Path

section Segments

theorem cut_eq_splitOn (text : List Char) : cut text = text.splitOn '.' := by
  induction text with
  | nil => rfl
  | cons c text ih =>
      rw [List.splitOn_cons_eq_if_modifyHead, cut, ih]
      by_cases hc : c = '.'
      · simp [hc]
      · cases hrest : text.splitOn '.' with
        | nil => exact absurd hrest (List.splitOn_ne_nil _ _)
        | cons segment segments => simp [hc]

/-- The path with the given segments. -/
def join (segments : List String) : String := ".".intercalate segments

@[simp] theorem segments_ne_nil (path : String) : segments path ≠ [] := by
  simp [segments, cut_eq_splitOn]

@[simp] theorem join_segments (path : String) : join (segments path) = path := by
  apply String.toList_inj.mp
  calc (join (segments path)).toList
      = ['.'].intercalate (cut path.toList) := by
        simp [join, segments, List.map_map, Function.comp_def]
    _ = path.toList := by rw [cut_eq_splitOn, List.intercalate_splitOn]

example : segments ".a..b" = ["", "a", "", "b"] := by decide

theorem segments_inj {p q : String} : segments p = segments q ↔ p = q := by
  constructor
  · intro h
    rw [← join_segments p, h, join_segments]
  · rintro rfl
    rfl

theorem segments_below {name : String} (hname : '.' ∉ name.toList) (path : String) :
    segments (name ++ "." ++ path) = name :: segments path := by
  have htext : (name ++ "." ++ path).toList = name.toList ++ '.' :: path.toList := by simp
  rw [segments, htext, cut_eq_splitOn, List.splitOn_append_cons_self_of_not_mem hname,
    List.map_cons, String.ofList_toList, segments, cut_eq_splitOn]

end Segments

section Above

/-- The first path leads to a part of the configuration that the second one goes on below: its
segments are a strict prefix of the others. -/
def Above (q p : String) : Prop := segments q <+: segments p ∧ segments q ≠ segments p

instance (q p : String) : Decidable (Above q p) := inferInstanceAs (Decidable (_ ∧ _))

theorem compare_eq_lt_iff {p q : String} :
    compare p q = .lt ↔ List.Lex Char.lt p.toList q.toList :=
  compareOfLessAndEq_eq_lt

theorem append_lt_append {p q : String} (beginning : String) (h : compare p q = .lt) :
    compare (beginning ++ p) (beginning ++ q) = .lt := by
  rw [compare_eq_lt_iff, String.toList_append, String.toList_append]
  exact (compare_eq_lt_iff.mp h).append_left Char.lt beginning.toList

theorem Above.lt {q p : String} (habove : Above q p) : compare q p = .lt := by
  obtain ⟨⟨rest, hrest⟩, hne⟩ := habove
  have hrest_ne : rest ≠ [] := by
    rintro rfl
    exact hne (by simpa using hrest)
  have hp : p = q ++ ("." ++ join rest) := by
    calc p = join (segments q ++ rest) := by rw [hrest, join_segments]
      _ = join (segments q) ++ "." ++ join rest :=
        String.intercalate_append_of_ne_nil (segments_ne_nil q) hrest_ne
      _ = q ++ ("." ++ join rest) := by rw [join_segments, String.append_assoc]
  have hempty : compare "" ("." ++ join rest) = .lt := by
    rw [compare_eq_lt_iff, String.toList_append]
    exact List.Lex.nil
  have hbelow := append_lt_append q hempty
  rwa [String.append_empty, ← hp] at hbelow

theorem not_isPrefix_of_lt {q p : String} (hlt : compare q p = .lt) :
    ¬ segments p <+: segments q := by
  intro hbegins
  by_cases heq : segments p = segments q
  · rw [segments_inj.mp heq] at hlt
    simp at hlt
  · exact Std.OrientedCmp.not_lt_of_lt hlt (Above.lt ⟨hbegins, heq⟩)

end Above

section Bytes

/-- The greater number has the greater digits, of which the last three have six bits each. -/
theorem digits_lt {v w : Nat} (h : v < w) :
    v / 262144 < w / 262144 ∨ v / 262144 = w / 262144 ∧
      (v / 4096 % 64 < w / 4096 % 64 ∨ v / 4096 % 64 = w / 4096 % 64 ∧
        (v / 64 % 64 < w / 64 % 64 ∨ v / 64 % 64 = w / 64 % 64 ∧ v % 64 < w % 64)) := by
  omega

/-- The greater of two characters has the greater encoding, whatever follows. -/
theorem encodeChar_lt {c d : Char} (h : Char.lt c d) (x y : List UInt8) :
    String.utf8EncodeChar c ++ x < String.utf8EncodeChar d ++ y := by
  have hlt : c.val.toNat < d.val.toNat := h
  have hmax : d.val.toNat < 0x110000 := by
    rcases d.valid with h | h <;> omega
  have hdigits := digits_lt hlt
  simp only [String.utf8EncodeChar]
  generalize c.val.toNat = v at *
  generalize d.val.toNat = w at *
  -- one to four bytes each: a longer encoding starts with a greater byte, and equally long ones
  -- are compared by their digits
  split_ifs <;>
    simp only [List.cons_append, List.nil_append, List.cons_lt_cons_iff, UInt8.lt_iff_toNat_lt,
      ← UInt8.toNat_inj, UInt8.toNat_ofNat', Nat.reducePow] <;>
    simp (disch := omega) only [Nat.mod_eq_of_lt] <;>
    omega

theorem encode_lt {a b : List Char} (h : List.Lex Char.lt a b) :
    a.flatMap String.utf8EncodeChar < b.flatMap String.utf8EncodeChar := by
  induction h with
  | nil =>
      rw [List.flatMap_nil, List.flatMap_cons]
      obtain ⟨_, _, hcons⟩ := List.exists_cons_of_ne_nil String.utf8EncodeChar_ne_nil
      rw [hcons]
      exact List.nil_lt_cons _ _
  | rel hcd =>
      rw [List.flatMap_cons, List.flatMap_cons]
      exact encodeChar_lt hcd _ _
  | cons _ ih =>
      rw [List.flatMap_cons, List.flatMap_cons]
      exact List.append_left_lt ih

/-- The bytes of a path. -/
def bytes (path : String) : List UInt8 := path.toUTF8.data.toList

theorem bytes_eq_flatMap (path : String) :
    bytes path = path.toList.flatMap String.utf8EncodeChar := by
  rw [bytes, String.toUTF8_eq_toByteArray, ← String.utf8Encode_toList, List.utf8Encode,
    List.toList_data_toByteArray]

theorem bytes_lt {p q : String} (h : compare p q = .lt) : bytes p < bytes q := by
  rw [bytes_eq_flatMap, bytes_eq_flatMap]
  exact encode_lt (compare_eq_lt_iff.mp h)

theorem isLE_compare_iff_bytes_le {p q : String} :
    (compare p q).isLE ↔ bytes p ≤ bytes q := by
  constructor
  · intro h
    rcases Ordering.isLE_iff_eq_lt_or_eq_eq.mp h with hlt | heq
    · exact List.le_of_lt (bytes_lt hlt)
    · rw [Std.LawfulEqCmp.compare_eq_iff_eq.mp heq]
      exact List.le_refl _
  · intro h
    by_contra hgt
    have hlt : compare q p = .lt := Std.OrientedCmp.gt_iff_lt.mp (by simpa using hgt)
    exact h (bytes_lt hlt)

end Bytes

end FinalityGadget.Path
