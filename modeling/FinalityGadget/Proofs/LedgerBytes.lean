import FinalityGadget.Proofs.FixedWidth
import FinalityGadget.Proofs.Ledger

/-!
# The bytes of a ledger

A ledger is written as the number of its voters, 36 bytes for each of them, the number of its
heights, and 24 bytes for each of these. Every byte string with room for the entries it announces is
read, whatever stands in the entries and behind them; of several entries of a key the last counts.
Nothing else is read, and what was written is read back.
-/

namespace FinalityGadget

namespace Ledger

namespace Layout

/-- The number of voters that a byte string announces. -/
def numVoters (bytes : List UInt8) : Nat := (wordAt bytes 0).toNat

/-- The place behind the voters. -/
def endOfVoters (bytes : List UInt8) : Nat := 8 + 36 * numVoters bytes

/-- The number of heights that a byte string announces behind its voters. -/
def numHeights (bytes : List UInt8) : Nat := (wordAt bytes (endOfVoters bytes)).toNat

/-- The room that all announced entries take. -/
def room (bytes : List UInt8) : Nat := 8 + 36 * numVoters bytes + 8 + 24 * numHeights bytes

/-- The announced voters, in the order in which they stand. -/
def voters (bytes : List UInt8) : List (Address × VoteHeights) :=
  (List.range (numVoters bytes)).map fun i =>
    let place := 8 + 36 * i
    (bytesAt 20 bytes place, ⟨wordAt bytes (place + 20), wordAt bytes (place + 28)⟩)

/-- The announced heights with their tallies, in the order in which they stand. -/
def tallies (bytes : List UInt8) : List (Height × Tally) :=
  (List.range (numHeights bytes)).map fun i =>
    let place := endOfVoters bytes + 8 + 24 * i
    (wordAt bytes place, ⟨wordAt bytes (place + 8), wordAt bytes (place + 16)⟩)

end Layout

open Format (IsFixed isFixed_word isFixed_bytes mapOf)

theorem isFixed_voter : (Format.pair (.bytes 20) format.votesFormat).IsFixed 36 fun bytes =>
    (bytesAt 20 bytes 0, ⟨wordAt bytes 20, wordAt bytes 28⟩) := by
  have hvotes := (isFixed_word.pair isFixed_word).via
    (fun v : VoteHeights => (v.prevoted, v.precommitted)) fun v => ⟨v.1, v.2⟩
  have hvoter := (isFixed_bytes 20).pair hvotes
  simp only [List.drop_drop, wordAt_drop] at hvoter
  exact hvoter

theorem isFixed_tally : (Format.pair .word format.tallyFormat).IsFixed 24 fun bytes =>
    (wordAt bytes 0, ⟨wordAt bytes 8, wordAt bytes 16⟩) := by
  have htally := (isFixed_word.pair isFixed_word).via
    (fun t : Tally => (t.prevotes, t.precommits)) fun t => ⟨t.1, t.2⟩
  have hentry := isFixed_word.pair htally
  simp only [List.drop_drop, wordAt_drop] at hentry
  exact hentry

theorem decode_voters (bytes : List UInt8) :
    (Format.map (.bytes 20) format.votesFormat).decode bytes =
      if Layout.endOfVoters bytes ≤ bytes.length then
        .ok (mapOf (Layout.voters bytes), bytes.drop (Layout.endOfVoters bytes))
      else .error .endOfInput := by
  have hentries : Format.itemsOf (fun bytes =>
      (bytesAt 20 bytes 0, (⟨wordAt bytes 20, wordAt bytes 28⟩ : VoteHeights))) 36
      (wordAt bytes 0).toNat (bytes.drop 8) = Layout.voters bytes := by
    simp only [Format.itemsOf, Layout.voters, Layout.numVoters, List.drop_drop, wordAt_drop,
      bytesAt_drop, Nat.add_zero]
  rw [Format.decode_map isFixed_voter bytes, hentries]
  rfl

theorem room_eq (bytes : List UInt8) : Layout.room bytes =
    Layout.endOfVoters bytes + (8 + 24 * Layout.numHeights bytes) := by
  rw [Layout.room, Layout.endOfVoters]
  omega

theorem decode_tallies (bytes : List UInt8) :
    (Format.map .word format.tallyFormat).decode (bytes.drop (Layout.endOfVoters bytes)) =
      if Layout.room bytes ≤ bytes.length then
        .ok (mapOf (Layout.tallies bytes), bytes.drop (Layout.room bytes))
      else .error .endOfInput := by
  have hcount : (wordAt (bytes.drop (Layout.endOfVoters bytes)) 0).toNat =
      Layout.numHeights bytes := by
    rw [wordAt_drop]
    rfl
  have hentries : Format.itemsOf (fun bytes =>
      (wordAt bytes 0, (⟨wordAt bytes 8, wordAt bytes 16⟩ : Tally))) 24
      (Layout.numHeights bytes) ((bytes.drop (Layout.endOfVoters bytes)).drop 8) =
        Layout.tallies bytes := by
    simp only [Format.itemsOf, Layout.tallies, List.drop_drop, wordAt_drop, Nat.add_zero]
  rw [Format.decode_map isFixed_tally, hcount, hentries, List.length_drop, List.drop_drop,
    room_eq]
  by_cases hle : 8 + 24 * Layout.numHeights bytes ≤ bytes.length - Layout.endOfVoters bytes
  · rw [if_pos hle, if_pos (by omega)]
  · rw [if_neg hle, if_neg (by omega)]

theorem read_format (bytes : List UInt8) :
    format.read bytes =
      if Layout.room bytes ≤ bytes.length then
        .ok ⟨mapOf (Layout.voters bytes), mapOf (Layout.tallies bytes)⟩
      else .error .endOfInput := by
  unfold Format.read format Format.via Format.pair
  simp only [decode_voters]
  by_cases hvoters : Layout.endOfVoters bytes ≤ bytes.length
  · rw [if_pos hvoters]
    simp only [bind, Except.bind, decode_tallies]
    by_cases hroom : Layout.room bytes ≤ bytes.length
    · simp only [if_pos hroom]
      rfl
    · simp only [if_neg hroom]
      rfl
  · have hroom : ¬ Layout.room bytes ≤ bytes.length := by
      rw [room_eq]
      omega
    rw [if_neg hvoters, if_neg hroom]
    rfl

/-- What a byte string is read as: of the entries of a key the last one counts, wherever it stands,
and the keys of a map are listed in ascending order. -/
structure IsReadFrom (l : Ledger) (bytes : List UInt8) : Prop where
  voters : ∀ a : Address, l.voters[a]? = lastValue? (Layout.voters bytes) a
  tallies : ∀ h : Height, l.tallies[h]? = lastValue? (Layout.tallies bytes) h
  ascending_voters : l.voters.keys.Pairwise fun a b => compare a.toList b.toList = .lt
  ascending_tallies : l.tallies.keys.Pairwise (· < ·)

theorem isReadFrom_of_read {l : Ledger} {bytes : List UInt8} (hread : format.read bytes = .ok l) :
    l.IsReadFrom bytes := by
  rw [read_format] at hread
  split_ifs at hread
  obtain rfl := Except.ok.inj hread
  have hvoters := Std.ExtTreeMap.ordered_keys (t := mapOf (Layout.voters bytes))
  have htallies := Std.ExtTreeMap.ordered_keys (t := mapOf (Layout.tallies bytes))
  exact ⟨Format.getElem?_mapOf _, Format.getElem?_mapOf _, hvoters,
    htallies.imp Std.compare_eq_lt.mp⟩

/-- The counts of a map of entries are words, so what was read can be written and read again. -/
theorem size_le_of_read {l : Ledger} {bytes : List UInt8} (hread : format.read bytes = .ok l) :
    l.voters.size ≤ Word.maxNat ∧ l.tallies.size ≤ Word.maxNat := by
  rw [read_format] at hread
  split_ifs at hread
  obtain rfl := Except.ok.inj hread
  constructor
  · refine (Format.size_mapOf_le _).trans ?_
    rw [Layout.voters, List.length_map, List.length_range]
    exact Word.toNat_le _
  · refine (Format.size_mapOf_le _).trans ?_
    rw [Layout.tallies, List.length_map, List.length_range]
    exact Word.toNat_le _

theorem read_encode_append {l : Ledger} (hvoters : l.voters.size ≤ Word.maxNat)
    (htallies : l.tallies.size ≤ Word.maxNat) (rest : List UInt8) :
    format.read (format.encode l ++ rest) = .ok l :=
  (reads_format hvoters htallies).read_append rest

theorem load_setLedger {l : Ledger} (hvoters : l.voters.size ≤ Word.maxNat)
    (htallies : l.tallies.size ≤ Word.maxNat) (s : Store) (db : Database) :
    load ((s.setLedger l).view db) = .ok l := by
  have hview : (s.setLedger l).view db key = .ok (some (format.encode l)) := by
    rw [Store.setLedger, Store.view_set, if_pos rfl]
  rw [load, View.record?_of_reads (reads_format hvoters htallies) hview]

/-- A ledger whose entries can be counted in words is read back, whatever follows it, and from every
store to which it was written. Of all byte strings, those are read that have room for the entries
they announce; the others end too early. What is read are these entries, and writing them loses
nothing. -/
theorem format_exact :
    (∀ l : Ledger, l.voters.size ≤ Word.maxNat → l.tallies.size ≤ Word.maxNat →
      (∀ rest, format.read (format.encode l ++ rest) = .ok l) ∧
        ∀ (s : Store) (db : Database), load ((s.setLedger l).view db) = .ok l) ∧
    ∀ bytes : List UInt8,
      ((∃ l, format.read bytes = .ok l) ↔ Layout.room bytes ≤ bytes.length) ∧
      (format.read bytes = .error .endOfInput ↔ bytes.length < Layout.room bytes) ∧
      ∀ l, format.read bytes = .ok l →
        l.IsReadFrom bytes ∧ format.read (format.encode l) = .ok l := by
  refine ⟨fun l hvoters htallies => ⟨read_encode_append hvoters htallies,
    load_setLedger hvoters htallies⟩, fun bytes => ⟨?_, ?_, fun l hread => ?_⟩⟩
  · rw [read_format]
    split_ifs with hroom
    · exact iff_of_true ⟨_, rfl⟩ hroom
    · simpa using hroom
  · rw [read_format, ← Nat.not_le]
    split_ifs with hroom
    · simpa using hroom
    · exact iff_of_true rfl hroom
  · obtain ⟨hvoters, htallies⟩ := size_le_of_read hread
    have hagain := read_encode_append hvoters htallies []
    rw [List.append_nil] at hagain
    exact ⟨isReadFrom_of_read hread, hagain⟩

/-- A written ledger, and a height that stands twice before a lower one. -/
theorem format_exact_of_unsorted :
    let l : Ledger := (empty.setVotes (.ofNat 1) ⟨3, 2⟩).setTally 3 ⟨1, 0⟩
    let entry := fun height prevotes : Nat =>
      littleEndian 8 height ++ littleEndian 8 prevotes ++ littleEndian 8 0
    let bytes := littleEndian 8 0 ++ littleEndian 8 3 ++ entry 9 1 ++ entry 9 5 ++ entry 4 2 ++ [7]
    (l.voters.size ≤ Word.maxNat ∧ l.tallies.size ≤ Word.maxNat ∧
      format.read (format.encode l ++ [7]) = .ok l ∧
      load (((Store.ofHeaders (.empty 1)).setLedger l).view ⟨∅, true⟩) = .ok l) ∧
    ∃ m, format.read bytes = .ok m ∧ m.tallies[(9 : Height)]? = some ⟨5, 0⟩ ∧
      format.read (format.encode m) = .ok m := by
  intro l entry bytes
  have hvoters : l.voters.size ≤ Word.maxNat := by decide +kernel
  have htallies : l.tallies.size ≤ Word.maxNat := by decide +kernel
  obtain ⟨hread, hload⟩ := format_exact.1 l hvoters htallies
  obtain ⟨hroom, -, hentries⟩ := format_exact.2 bytes
  obtain ⟨m, hm⟩ := hroom.mpr (by decide +kernel)
  obtain ⟨hfrom, hagain⟩ := hentries m hm
  refine ⟨⟨hvoters, htallies, hread [7], hload _ _⟩, m, hm, ?_, hagain⟩
  rw [hfrom.tallies]
  decide +kernel

end Ledger

end FinalityGadget
