import FinalityGadget.Json.Printer
import FinalityGadget.Json.Reader
import Mathlib.Data.List.Basic
import Mathlib.Tactic.SplitIfs

/-!
# Scalars read back from their text

A quoted string is read back with all its characters, as each of them is told from what its escape
starts with. An integer of the 64-bit ranges is read back exactly, provided that the text behind it
does not go on with the number. In front of a value, blanks do not count.
-/

namespace FinalityGadget

theorem Hex.value?_digit {n : Nat} (hn : n < 16) : Hex.value? (Hex.digit n) = some n := by
  have hall : ∀ n < 16, Hex.value? (Hex.digit n) = some n := by decide
  exact hall n hn

namespace Json

/-! ## Blanks -/

@[simp] theorem skipBlanks_newLine (level : Nat) (text : List Char) :
    skipBlanks (newLine level ++ text) = skipBlanks text := by
  have hspaces : ∀ n, skipBlanks (List.replicate n ' ' ++ text) = skipBlanks text := by
    intro n
    induction n with
    | zero => rfl
    | succ n ih =>
        rw [List.replicate_succ, List.cons_append, skipBlanks, List.dropWhile_cons_of_pos rfl]
        exact ih
  rw [newLine, List.cons_append, skipBlanks, List.dropWhile_cons_of_pos rfl]
  exact hspaces _

@[simp] theorem skipBlanks_space (text : List Char) : skipBlanks (' ' :: text) = skipBlanks text :=
  rfl

theorem skipBlanks_cons {c : Char} (hc : isBlank c = false) (text : List Char) :
    skipBlanks (c :: text) = c :: text := by
  rw [skipBlanks, List.dropWhile_cons_of_neg (by simp [hc])]

/-! ## Strings -/

theorem quoted_append (s : String) (rest : List Char) :
    quoted s ++ rest = '"' :: (s.toList.flatMap escape ++ '"' :: rest) := by
  simp [quoted]

theorem skipBlanks_quoted (s : String) (rest : List Char) :
    skipBlanks (quoted s ++ rest) = quoted s ++ rest := by
  rw [quoted_append, skipBlanks_cons rfl]

theorem readEscape_control {c : Char} (hc : c.toNat < 0x20) (rest : List Char) :
    readEscape ('u' :: '0' :: '0' :: Hex.digit (c.toNat / 16) :: Hex.digit (c.toNat % 16) :: rest) =
      .ok (c, rest) := by
  have hzero : Hex.value? '0' = some 0 := by decide
  have hhigh : Hex.value? (Hex.digit (c.toNat / 16)) = some (c.toNat / 16) :=
    Hex.value?_digit (by omega)
  have hlow : Hex.value? (Hex.digit (c.toNat % 16)) = some (c.toNat % 16) :=
    Hex.value?_digit (by omega)
  have hunit : ((0 * 16 + 0) * 16 + c.toNat / 16) * 16 + c.toNat % 16 = c.toNat := by omega
  have hsurrogate : ¬ (0xDC00 ≤ c.toNat ∧ c.toNat ≤ 0xDFFF) := by omega
  have hpair : ¬ (0xD800 ≤ c.toNat ∧ c.toNat ≤ 0xDBFF) := by omega
  have hcode : readCodePoint
      ('0' :: '0' :: Hex.digit (c.toNat / 16) :: Hex.digit (c.toNat % 16) :: rest) =
        .ok (c, rest) := by
    simp only [readCodePoint, readHex4, hzero, hhigh, hlow, hunit, bind, Except.bind, pure,
      Except.pure, if_neg hsurrogate, if_neg hpair, Char.ofNat_toNat]
  exact hcode

theorem readQuoted_escape (fuel : Nat) (read : List Char) (c : Char) (rest : List Char) :
    readQuoted (fuel + 1) read (escape c ++ rest) = readQuoted fuel (c :: read) rest := by
  unfold escape
  split_ifs with hquote hbackslash hline hreturn htab hback hform hcontrol
  · subst hquote
    rfl
  · subst hbackslash
    rfl
  · subst hline
    rfl
  · subst hreturn
    rfl
  · subst htab
    rfl
  · subst hback
    rfl
  · subst hform
    rfl
  · have hread := readEscape_control hcontrol rest
    simp only [List.cons_append, List.nil_append]
    rw [readQuoted, if_neg (by decide), if_pos rfl, hread]
  · rw [List.cons_append, List.nil_append, readQuoted, if_neg hquote, if_neg hbackslash,
      if_neg hcontrol]

theorem readQuoted_flatMap_escape {fuel : Nat} (read chars rest : List Char)
    (hfuel : chars.length < fuel) :
    readQuoted fuel read (chars.flatMap escape ++ '"' :: rest) =
      .ok (read.reverse ++ chars, rest) := by
  induction chars generalizing fuel read with
  | nil =>
      obtain ⟨fuel, rfl⟩ := Nat.exists_eq_add_of_lt hfuel
      simp [readQuoted]
  | cons c chars ih =>
      obtain ⟨fuel, rfl⟩ : ∃ n, fuel = n + 1 := ⟨fuel - 1, by simp at hfuel; omega⟩
      rw [List.flatMap_cons, List.append_assoc, readQuoted_escape, ih]
      · simp
      · simpa using hfuel

theorem length_escape_pos (c : Char) : 0 < (escape c).length := by
  unfold escape
  split_ifs <;> simp

theorem length_le_flatMap_escape (chars : List Char) :
    chars.length ≤ (chars.flatMap escape).length := by
  induction chars with
  | nil => simp
  | cons c chars ih =>
      have hpos := length_escape_pos c
      simp only [List.length_cons, List.flatMap_cons, List.length_append]
      omega

theorem readString_flatMap_escape (s : String) (rest : List Char) :
    readString (s.toList.flatMap escape ++ '"' :: rest) = .ok (s, rest) := by
  have hlength := length_le_flatMap_escape s.toList
  have hread : readQuoted ((s.toList.flatMap escape ++ '"' :: rest).length + 1) []
      (s.toList.flatMap escape ++ '"' :: rest) = .ok (s.toList, rest) := by
    apply readQuoted_flatMap_escape
    simp only [List.length_append, List.length_cons]
    omega
  rw [readString, hread]
  simp [bind, Except.bind, pure, Except.pure]

/-! ## Integers -/

/-- The text does not go on with a number that stands before it. -/
def EndsNumber (text : List Char) : Prop :=
  ∀ c, text.head? = some c → c.isDigit = false ∧ c ≠ '.' ∧ c ≠ 'e' ∧ c ≠ 'E'

theorem le_ofDigitChars (digits : List Char) (n : Nat) : n ≤ Nat.ofDigitChars 10 digits n := by
  have hmul : 1 * n ≤ 10 ^ digits.length * n :=
    Nat.mul_le_mul_right n (Nat.one_le_pow _ _ (by omega))
  rw [Nat.ofDigitChars_eq_ofDigitChars_zero]
  omega

theorem appendDigits_eq {digits : List Char} {n : Nat}
    (hfits : Nat.ofDigitChars 10 digits n ≤ Word.maxNat) :
    appendDigits n digits = (Nat.ofDigitChars 10 digits n, 0) := by
  induction digits generalizing n with
  | nil => rfl
  | cons c digits ih =>
      have hnext : n * 10 + digitValue c = 10 * n + (c.toNat - '0'.toNat) := by
        rw [Nat.mul_comm, digitValue]
      rw [Nat.ofDigitChars_cons, ← hnext] at hfits ⊢
      have hle := Nat.le_trans (le_ofDigitChars digits (n * 10 + digitValue c)) hfits
      rw [appendDigits, if_pos hle]
      exact ih hfits

theorem head?_toDigits_ne {n : Nat} (hn : 0 < n) : (Nat.toDigits 10 n).head? ≠ some '0' := by
  induction n using Nat.strongRecOn with
  | ind n ih =>
      by_cases hsmall : n < 10
      · have hall : ∀ n < 10, 0 < n → some n.digitChar ≠ some '0' := by decide
        rw [Nat.toDigits_of_lt_base hsmall]
        exact hall n hsmall hn
      · rw [Nat.toDigits_of_base_le (by omega) (by omega),
          List.head?_append_of_ne_nil _ Nat.toDigits_ne_nil]
        exact ih (n / 10) (by omega) (by omega)

theorem length_toDigits_of_head? {n : Nat} (hhead : (Nat.toDigits 10 n).head? = some '0') :
    (Nat.toDigits 10 n).length = 1 := by
  rcases Nat.eq_zero_or_pos n with rfl | hpos
  · rfl
  · exact absurd hhead (head?_toDigits_ne hpos)

theorem takeWhile_toDigits_append (n : Nat) {rest : List Char} (hrest : EndsNumber rest) :
    (Nat.toDigits 10 n ++ rest).takeWhile Char.isDigit = Nat.toDigits 10 n := by
  have hdigits : ∀ c ∈ Nat.toDigits 10 n, c.isDigit = true :=
    fun c hc => Nat.isDigit_of_mem_toDigits (by omega) (by omega) hc
  have hnone : rest.takeWhile Char.isDigit = [] := by
    cases rest with
    | nil => rfl
    | cons c rest => simp [(hrest c rfl).1]
  rw [List.takeWhile_append_of_pos hdigits, hnone, List.append_nil]

/-- The number with a sign and a magnitude. -/
def signed (negative : Bool) (n : Nat) : Int := if negative then -(n : Int) else n

theorem readNumber_toDigits (negative : Bool) {n : Nat} (hfits : n ≤ Word.maxNat)
    (hnegative : negative = true → 0 < n ∧ n ≤ minInteger.natAbs) {rest : List Char}
    (hrest : EndsNumber rest) :
    readNumber negative (Nat.toDigits 10 n ++ rest) = .ok (.integer (signed negative n), rest) := by
  have hvalue : Nat.ofDigitChars 10 (Nat.toDigits 10 n) 0 = n := Nat.ofDigitChars_ten_toDigits
  have hnonempty : (Nat.toDigits 10 n).isEmpty = false :=
    List.isEmpty_eq_false_iff.mpr Nat.toDigits_ne_nil
  have happend : appendDigits 0 (Nat.toDigits 10 n) = (n, 0) := by
    rw [appendDigits_eq (by omega), hvalue]
  have hlead : ¬ ((Nat.toDigits 10 n).head? = some '0' ∧ (Nat.toDigits 10 n).length ≠ 1) :=
    fun h => h.2 (length_toDigits_of_head? h.1)
  have hexact : ¬ (0 ≠ 0 ∨ (negative = true ∧ (n = 0 ∨ minInteger.natAbs < n))) := by
    rintro (hne | ⟨htrue, hzero | hlarge⟩)
    · exact hne rfl
    · have := (hnegative htrue).1
      omega
    · have := (hnegative htrue).2
      omega
  unfold readNumber
  simp only [takeWhile_toDigits_append n hrest, List.drop_left, hnonempty, happend, if_neg hlead,
    Bool.false_eq_true, if_false]
  -- What stands behind the digits is no part of the number.
  split
  · exact absurd rfl (hrest '.' rfl).2.1
  · exact absurd rfl (hrest 'e' rfl).2.2.1
  · exact absurd rfl (hrest 'E' rfl).2.2.2
  · rw [if_neg hexact, signed]

/-! ## Scalars -/

/-- A value without parts that is kept exactly: no fraction, and an integer of the 64-bit ranges. -/
def IsScalar : Json → Prop
  | .null => True
  | .bool _ => True
  | .string _ => True
  | .integer n => minInteger ≤ n ∧ n ≤ maxInteger
  | _ => False

theorem toList_toString_natCast (n : Nat) : (toString (n : Int)).toList = Nat.toDigits 10 n := by
  exact Nat.toList_repr

theorem toList_toString_neg {n : Nat} (hn : 0 < n) :
    (toString (-(n : Int))).toList = '-' :: Nat.toDigits 10 n := by
  obtain ⟨m, rfl⟩ := Nat.exists_eq_succ_of_ne_zero (Nat.ne_of_gt hn)
  show ("-" ++ (m + 1).repr).toList = _
  rw [String.toList_append, Nat.toList_repr]
  rfl

theorem readValue_congr {text other : List Char} (htext : skipBlanks text = skipBlanks other)
    (fuel depth : Nat) : readValue (fuel + 1) depth text = readValue (fuel + 1) depth other := by
  rw [readValue, readValue, htext]

/-- Nothing but a number starts with a digit. -/
theorem readValue_digit (fuel depth : Nat) {c : Char} (hc : c.isDigit = true) (text : List Char) :
    readValue (fuel + 1) depth (c :: text) = readNumber false (c :: text) := by
  have hne : ∀ d : Char, d.isDigit = false → c ≠ d := by
    rintro d hd rfl
    rw [hc] at hd
    cases hd
  have hblank : isBlank c = false := by
    simp [isBlank, hne ' ' rfl, hne '\n' rfl, hne '\t' rfl, hne '\r' rfl]
  rw [readValue, skipBlanks_cons hblank]
  split
  case h_1 heq => cases heq
  case h_2 heq => exact absurd (List.cons.inj heq).1 (hne '"' rfl)
  case h_3 heq => exact absurd (List.cons.inj heq).1 (hne 'n' rfl)
  case h_4 heq => exact absurd (List.cons.inj heq).1 (hne 't' rfl)
  case h_5 heq => exact absurd (List.cons.inj heq).1 (hne 'f' rfl)
  case h_6 heq => exact absurd (List.cons.inj heq).1 (hne '-' rfl)
  case h_7 heq => exact absurd (List.cons.inj heq).1 (hne '[' rfl)
  case h_8 heq => exact absurd (List.cons.inj heq).1 (hne '{' rfl)
  case h_9 heq =>
    obtain ⟨rfl, rfl⟩ := List.cons.inj heq
    rw [if_pos hc]

theorem readValue_scalar {value : Json} (hvalue : value.IsScalar) (fuel depth level : Nat)
    {rest : List Char} (hrest : EndsNumber rest) :
    readValue (fuel + 1) depth (prettyChars level value ++ rest) = .ok (value, rest) := by
  cases value with
  | null => rfl
  | bool b => cases b <;> rfl
  | string s =>
      rw [prettyChars, quoted_append, readValue, skipBlanks_cons rfl]
      simp only [readString_flatMap_escape, bind, Except.bind, pure, Except.pure]
  | integer n =>
      obtain ⟨hmin, hmax⟩ := hvalue
      rw [prettyChars]
      rcases Int.lt_or_le n 0 with hneg | hnonneg
      · obtain ⟨m, rfl⟩ : ∃ m : Nat, n = -(m : Int) := ⟨n.natAbs, by omega⟩
        have hm : 0 < m ∧ m ≤ minInteger.natAbs := by omega
        have hfits : m ≤ Word.maxNat := by
          unfold minInteger at hm
          unfold Word.maxNat
          omega
        have hread := readNumber_toDigits true hfits (fun _ => hm) hrest
        rw [toList_toString_neg hm.1, List.cons_append, readValue, skipBlanks_cons rfl]
        exact hread
      · obtain ⟨m, rfl⟩ : ∃ m : Nat, n = m := ⟨n.toNat, by omega⟩
        have hfits : m ≤ Word.maxNat := by
          unfold maxInteger at hmax
          omega
        have hread := readNumber_toDigits false hfits (by simp) hrest
        obtain ⟨c, digits, hdigits⟩ :=
          List.exists_cons_of_ne_nil (Nat.toDigits_ne_nil (b := 10) (n := m))
        have hc : c.isDigit = true :=
          Nat.isDigit_of_mem_toDigits (by omega) (by omega) (hdigits ▸ List.mem_cons_self)
        rw [toList_toString_natCast]
        rw [hdigits, List.cons_append] at hread ⊢
        rw [readValue_digit fuel depth hc]
        exact hread
  | float x => exact hvalue.elim
  | array items => exact hvalue.elim
  | object fields => exact hvalue.elim

end Json

end FinalityGadget
