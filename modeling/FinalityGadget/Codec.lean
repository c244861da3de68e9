import FinalityGadget.Bytes
import Std.Data.ExtTreeMap

/-!
# Binary records

A `Format` writes a value as bytes and reads it back from the front of a byte string, returning what
is left. Words take eight bytes, least significant first; booleans one byte; byte strings of fixed
width stand as they are. Lists and maps start with their length as a word. Bytes behind a record are
ignored, and of equal keys in a map the last counts.
-/

namespace FinalityGadget

/-- What keeps a byte string from being a record. -/
inductive DecodeError
  | endOfInput
  /-- A byte other than 0 and 1 stands for a boolean. -/
  | invalidBool (found : UInt8)
deriving DecidableEq, Repr

def DecodeError.message : DecodeError → String
  | .endOfInput => "io error: unexpected end of file"
  | .invalidBool found =>
    s!"invalid u8 while decoding bool, expected 0 or 1, found {found.toNat}"

/-- How values are written as bytes and read back. -/
structure Format (α : Type) where
  encode : α → List UInt8
  decode : List UInt8 → Except DecodeError (α × List UInt8)

namespace Format

variable {α β : Type}

/-- Takes exactly `n` bytes from the front. -/
def takeBytes : (n : Nat) → List UInt8 → Except DecodeError (List UInt8 × List UInt8)
  | 0, bytes => .ok ([], bytes)
  | _ + 1, [] => .error .endOfInput
  | n + 1, b :: bytes =>
    match takeBytes n bytes with
    | .ok (taken, rest) => .ok (b :: taken, rest)
    | .error e => .error e

theorem takeBytes_eq (n : Nat) (bytes : List UInt8) :
    takeBytes n bytes =
      if n ≤ bytes.length then .ok (bytes.take n, bytes.drop n) else .error .endOfInput := by
  induction n generalizing bytes with
  | zero => simp [takeBytes]
  | succ n ih =>
    cases bytes with
    | nil => simp [takeBytes]
    | cons b bytes => by_cases hle : n ≤ bytes.length <;> simp [takeBytes, ih, hle]

theorem length_of_takeBytes {n : Nat} {bytes taken rest : List UInt8}
    (h : takeBytes n bytes = .ok (taken, rest)) : taken.length = n := by
  rw [takeBytes_eq] at h
  split at h
  · rename_i hle
    simp only [Except.ok.injEq, Prod.mk.injEq] at h
    rw [← h.1, List.length_take]
    omega
  · simp at h

theorem takeBytes_append {n : Nat} {taken : List UInt8} (hlength : taken.length = n)
    (rest : List UInt8) : takeBytes n (taken ++ rest) = .ok (taken, rest) := by
  rw [takeBytes_eq, if_pos (by simp [hlength]), ← hlength]
  simp

def word : Format Word where
  encode w := littleEndian 8 w.toNat
  decode bytes := do
    let (taken, rest) ← takeBytes 8 bytes
    return (UInt64.ofNat (ofLittleEndian taken), rest)

def bool : Format Bool where
  encode b := [if b then 1 else 0]
  decode
    | [] => .error .endOfInput
    | b :: rest =>
      if b = 0 then .ok (false, rest)
      else if b = 1 then .ok (true, rest)
      else .error (.invalidBool b)

def bytes (n : Nat) : Format (Bytes n) where
  encode b := b.toList
  decode bytes :=
    match h : takeBytes n bytes with
    | .ok (taken, rest) => .ok (⟨taken, length_of_takeBytes h⟩, rest)
    | .error e => .error e

/-- One value behind another. -/
def pair (f : Format α) (g : Format β) : Format (α × β) where
  encode p := f.encode p.1 ++ g.encode p.2
  decode bytes := do
    let (a, bytes) ← f.decode bytes
    let (b, bytes) ← g.decode bytes
    return ((a, b), bytes)

/-- The format of a type whose values correspond to those of another. -/
def via (f : Format α) (toα : β → α) (ofα : α → β) : Format β where
  encode b := f.encode (toα b)
  decode bytes := do
    let (a, bytes) ← f.decode bytes
    return (ofα a, bytes)

/-- Reads a number of items one after the other. -/
def decodeItems (f : Format α) : Nat → List UInt8 → Except DecodeError (List α × List UInt8)
  | 0, bytes => .ok ([], bytes)
  | count + 1, bytes => do
    let (item, bytes) ← f.decode bytes
    let (items, bytes) ← decodeItems f count bytes
    return (item :: items, bytes)

def list (f : Format α) : Format (List α) where
  encode items := word.encode (UInt64.ofNat items.length) ++ items.flatMap f.encode
  decode bytes := do
    let (count, bytes) ← word.decode bytes
    decodeItems f count.toNat bytes

/-- A map is written as the list of its entries in ascending order of the keys. -/
def map [Ord α] [Std.TransOrd α] (f : Format α) (g : Format β) : Format (Std.ExtTreeMap α β) :=
  via (list (pair f g)) Std.ExtTreeMap.toList
    (fun entries => entries.foldl (fun m entry => m.insert entry.1 entry.2) ∅)

/-- Reads a value from the front of a byte string. -/
def read (f : Format α) (bytes : List UInt8) : Except DecodeError α := (f.decode bytes).map Prod.fst

/-- What is written for `a` is read back as `a`, whatever follows. -/
def Reads (f : Format α) (a : α) : Prop := ∀ rest, f.decode (f.encode a ++ rest) = .ok (a, rest)

theorem reads_word (w : Word) : word.Reads w := by
  intro rest
  have hvalue : ofLittleEndian (littleEndian 8 w.toNat) = w.toNat := by
    rw [ofLittleEndian_littleEndian]
    exact Nat.mod_eq_of_lt w.toNat_lt
  simp [word, takeBytes_append (length_littleEndian 8 w.toNat), hvalue, bind, Except.bind, pure,
    Except.pure]

theorem reads_bool (b : Bool) : bool.Reads b := by
  intro rest
  cases b <;> simp [bool]

theorem reads_bytes {n : Nat} (b : Bytes n) : (bytes n).Reads b := by
  intro rest
  have htake := takeBytes_append b.length_toList rest
  simp only [bytes]
  split
  · rename_i taken rest' heq
    rw [htake] at heq
    simp only [Except.ok.injEq, Prod.mk.injEq] at heq
    obtain ⟨rfl, rfl⟩ := heq
    rfl
  · rename_i e heq
    rw [htake] at heq
    simp at heq

theorem Reads.pair {f : Format α} {g : Format β} {a : α} {b : β} (ha : f.Reads a)
    (hb : g.Reads b) : (f.pair g).Reads (a, b) := by
  intro rest
  simp [Format.pair, List.append_assoc, ha _, hb _, bind, Except.bind, pure, Except.pure]

theorem Reads.via {f : Format α} {toα : β → α} {ofα : α → β} {b : β} (h : f.Reads (toα b))
    (hinv : ofα (toα b) = b) : (f.via toα ofα).Reads b := by
  intro rest
  simp [Format.via, h rest, hinv, bind, Except.bind, pure, Except.pure]

theorem decodeItems_encode {f : Format α} {items : List α} (h : ∀ a ∈ items, f.Reads a)
    (rest : List UInt8) :
    decodeItems f items.length (items.flatMap f.encode ++ rest) = .ok (items, rest) := by
  induction items with
  | nil => rfl
  | cons a items ih =>
    have ha := h a List.mem_cons_self
    have hitems := ih fun b hb => h b (List.mem_cons_of_mem a hb)
    simp [decodeItems, List.append_assoc, ha _, hitems, bind, Except.bind, pure, Except.pure]

theorem Reads.list {f : Format α} {items : List α} (h : ∀ a ∈ items, f.Reads a)
    (hlength : items.length ≤ Word.maxNat) : (Format.list f).Reads items := by
  intro rest
  have hcount : (UInt64.ofNat items.length).toNat = items.length :=
    UInt64.toNat_ofNat_of_lt' (Nat.lt_succ_of_le hlength)
  simp [Format.list, List.append_assoc, reads_word _ _, hcount, decodeItems_encode h, bind,
    Except.bind]

end Format

end FinalityGadget
