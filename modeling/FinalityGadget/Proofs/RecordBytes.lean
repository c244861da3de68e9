import FinalityGadget.Header
import FinalityGadget.Proofs.SelfDelimiting
import FinalityGadget.Quorum
import FinalityGadget.Validator

/-!
# The bytes of headers and validators

Headers, finalized heights, quorums and lists of validators show where they end. A list of
validators is written as its length and 29 bytes for each of them. Of these one tells whether the
validator participates, and no other values than 0 and 1 are read from it, so there are byte strings
with room for the validators they announce that are not read.
-/

namespace FinalityGadget

open Format (SelfDelimiting selfDelimiting_word selfDelimiting_bytes selfDelimiting_bool)

theorem Header.selfDelimiting_format (header : Header) : format.SelfDelimiting header := by
  have hclaims := (selfDelimiting_word header.previouslyForged).pair
    (selfDelimiting_word header.prevoted)
  have hforged := (selfDelimiting_bytes header.generator).pair
    ((selfDelimiting_word header.timestamp).pair ((selfDelimiting_word header.reward).pair hclaims))
  have hplace := (selfDelimiting_word header.height).pair
    ((selfDelimiting_bytes header.id).pair ((selfDelimiting_bytes header.previous).pair hforged))
  apply SelfDelimiting.via
  · exact hplace
  · rfl

theorem Quorum.selfDelimiting_format (quorum : Quorum) : format.SelfDelimiting quorum :=
  (selfDelimiting_word quorum.votes).via rfl

namespace Validator

theorem selfDelimiting_format (validator : Validator) : format.SelfDelimiting validator := by
  have hrest := (selfDelimiting_bool validator.participates).pair
    (selfDelimiting_word validator.activeFrom)
  apply SelfDelimiting.via
  · exact (selfDelimiting_bytes validator.address).pair hrest
  · rfl

theorem selfDelimiting_listFormat {validators : List Validator}
    (hlength : validators.length ≤ Word.maxNat) : listFormat.SelfDelimiting validators :=
  .list (fun validator _ => selfDelimiting_format validator) hlength

theorem isCanonical_listFormat : listFormat.IsCanonical := by
  have hrest := Format.isCanonical_bool.pair Format.isCanonical_word
  exact (((Format.isCanonical_bytes 20).pair hrest).via fun _ => rfl).list

end Validator

namespace Validator.Layout

/-- The number of validators that a byte string announces. -/
def count (bytes : List UInt8) : Nat := (wordAt bytes 0).toNat

/-- The room that all announced validators take. -/
def room (bytes : List UInt8) : Nat := 8 + 29 * count bytes

/-- The byte behind the address of the `i`-th validator, which tells whether it participates. -/
def participation? (bytes : List UInt8) (i : Nat) : Option UInt8 := bytes[8 + (29 * i + 20)]?

/-- The value of a byte that is read as a boolean. -/
def IsBool (b : UInt8) : Prop := b = 0 ∨ b = 1

theorem isBool_iff_not_lt {b : UInt8} : IsBool b ↔ ¬ 1 < b := by
  rw [IsBool, ← UInt8.toNat_inj, ← UInt8.toNat_inj, UInt8.lt_iff_toNat_lt, UInt8.toNat_zero,
    UInt8.toNat_one]
  omega

end Validator.Layout

open Validator.Layout (count room participation? IsBool)

namespace Validator

/-- The byte of a validator that is at fault, if it is there. -/
def fault? (bytes : List UInt8) : Option UInt8 := bytes[20]?.filter (1 < ·)

theorem isChecked_format :
    format.IsChecked 29 fault? fun bytes =>
      ⟨bytesAt 20 bytes 0, bytes[20]? = some 1, wordAt bytes 21⟩ := by
  have haddress := Format.isFixed_iff_isChecked.mp (Format.isFixed_bytes 20)
  have hactive := Format.isFixed_iff_isChecked.mp Format.isFixed_word
  have hvalidator := (haddress.pair (Format.isChecked_bool.pair hactive)).via
    (fun v : Validator => (v.address, v.participates, v.activeFrom))
    (fun fields => ⟨fields.1, fields.2.1, fields.2.2⟩)
  simp only [Option.none_or, Option.or_none, List.head?_drop, List.drop_drop, wordAt_drop]
    at hvalidator
  exact hvalidator

variable {bytes : List UInt8} {b : UInt8}

theorem fault?_eq_some_iff {i : Nat} :
    fault? ((bytes.drop 8).drop (29 * i)) = some b ↔
      participation? bytes i = some b ∧ ¬ IsBool b := by
  rw [fault?, List.drop_drop, List.getElem?_drop, Option.filter_eq_some_iff,
    Layout.isBool_iff_not_lt, decide_eq_true_iff, not_not, Nat.add_assoc]
  rfl

theorem fault?_eq_none_iff {i : Nat} :
    fault? ((bytes.drop 8).drop (29 * i)) = none ↔
      ∀ b, participation? bytes i = some b → IsBool b := by
  rw [Option.eq_none_iff_forall_ne_some]
  simp only [ne_eq, fault?_eq_some_iff, not_and, not_not]

theorem exists_participation? {i j : Nat} (hlt : j < i) (hb : participation? bytes i = some b) :
    ∃ c, participation? bytes j = some c := by
  have hi := (List.getElem?_eq_some_iff.mp hb).1
  exact ⟨_, List.getElem?_eq_getElem (show 8 + (29 * j + 20) < bytes.length by omega)⟩

theorem read_listFormat_cases (bytes : List UInt8) :
    (∃ found, Format.faultOf fault? 29 (count bytes) (bytes.drop 8) = some found ∧
      listFormat.read bytes = .error (.invalidBool found)) ∨
    Format.faultOf fault? 29 (count bytes) (bytes.drop 8) = none ∧
      (room bytes ≤ bytes.length ∧ (∃ validators, listFormat.read bytes = .ok validators) ∨
        bytes.length < room bytes ∧ listFormat.read bytes = .error .endOfInput) := by
  have hdecode := isChecked_format.decode_list bytes
  rw [← listFormat, ← count, ← room] at hdecode
  unfold Format.read
  cases hfault : Format.faultOf fault? 29 (count bytes) (bytes.drop 8) with
  | some found =>
      rw [hfault] at hdecode
      exact .inl ⟨found, rfl, by rw [hdecode]; rfl⟩
  | none =>
      simp only [hfault] at hdecode
      by_cases hroom : room bytes ≤ bytes.length
      · rw [if_pos hroom] at hdecode
        exact .inr ⟨rfl, .inl ⟨hroom, _, by rw [hdecode]; rfl⟩⟩
      · rw [if_neg hroom] at hdecode
        exact .inr ⟨rfl, .inr ⟨Nat.lt_of_not_le hroom, by rw [hdecode]; rfl⟩⟩

/-- The first byte of a validator that is at fault is reported, even if the input ends behind it. -/
theorem read_listFormat_eq_invalidBool_iff :
    listFormat.read bytes = .error (.invalidBool b) ↔
      ∃ i < count bytes, participation? bytes i = some b ∧ ¬ IsBool b ∧
        ∀ j < i, ∃ c, participation? bytes j = some c ∧ IsBool c := by
  have hread : listFormat.read bytes = .error (.invalidBool b) ↔
      Format.faultOf fault? 29 (count bytes) (bytes.drop 8) = some b := by
    rcases read_listFormat_cases bytes with
      ⟨found, hfault, hread⟩ | ⟨hfault, ⟨-, _, hread⟩ | ⟨-, hread⟩⟩
    · simp [hfault, hread]
    · simp [hfault, hread]
    · simp [hfault, hread]
  rw [hread, Format.faultOf_eq_some_iff]
  simp only [fault?_eq_some_iff, fault?_eq_none_iff]
  constructor
  · rintro ⟨i, hi, ⟨hb, hfault⟩, hbefore⟩
    refine ⟨i, hi, hb, hfault, fun j hj => ?_⟩
    obtain ⟨c, hc⟩ := exists_participation? hj hb
    exact ⟨c, hc, hbefore j hj c hc⟩
  · rintro ⟨i, hi, hb, hfault, hbefore⟩
    refine ⟨i, hi, ⟨hb, hfault⟩, fun j hj c hc => ?_⟩
    obtain ⟨c', hc', hbool⟩ := hbefore j hj
    rw [hc] at hc'
    rwa [Option.some.inj hc']

theorem read_listFormat_eq_endOfInput_iff :
    listFormat.read bytes = .error .endOfInput ↔
      bytes.length < room bytes ∧
        ∀ i < count bytes, ∀ b, participation? bytes i = some b → IsBool b := by
  simp only [← fault?_eq_none_iff, ← Format.faultOf_eq_none_iff]
  rcases read_listFormat_cases bytes with
    ⟨found, hfault, hread⟩ | ⟨hfault, ⟨hroom, _, hread⟩ | ⟨hroom, hread⟩⟩
  · simp [hfault, hread]
  · simp [hread, Nat.not_lt.mpr hroom]
  · simp [hfault, hread, hroom]

theorem exists_read_listFormat_iff :
    (∃ validators, listFormat.read bytes = .ok validators) ↔
      room bytes ≤ bytes.length ∧
        ∀ i < count bytes, ∃ b, participation? bytes i = some b ∧ IsBool b := by
  have hread : (∃ validators, listFormat.read bytes = .ok validators) ↔
      room bytes ≤ bytes.length ∧
        ∀ i < count bytes, ∀ b, participation? bytes i = some b → IsBool b := by
    simp only [← fault?_eq_none_iff, ← Format.faultOf_eq_none_iff]
    rcases read_listFormat_cases bytes with
      ⟨found, hfault, hread⟩ | ⟨hfault, ⟨hroom, _, hread⟩ | ⟨hroom, hread⟩⟩
    · simp [hfault, hread]
    · simp [hfault, hread, hroom]
    · simp [hread, Nat.not_le.mpr hroom]
  rw [hread]
  refine and_congr_right fun hroom => forall₂_congr fun i hi => ?_
  have hplace : 8 + (29 * i + 20) < bytes.length := by
    unfold room at hroom
    omega
  have hthere : participation? bytes i = some bytes[8 + (29 * i + 20)] :=
    List.getElem?_eq_getElem hplace
  simp [hthere]

theorem ofState_setValidators {validators : List Validator}
    (hlength : validators.length ≤ Word.maxNat) (s : Store) (db : Database) :
    Registry.ofState ((s.setValidators validators).view db) = .ok validators := by
  have hview : (s.setValidators validators).view db key =
      .ok (some (listFormat.encode validators)) := by
    rw [Store.setValidators, Store.view_set, if_pos rfl]
  rw [Registry.ofState, View.record?_of_reads (selfDelimiting_listFormat hlength).reads hview]

end Validator

/-- Headers, finalized heights, quorums and lists of validators whose length is a word are read
back, whatever follows them, and are not read where they break off; the validators written to a
store are the ones that the state has. Of all byte strings, those are read as validators that have
room for the ones they announce, each of them with 0 or 1 where its participation stands, and they
begin with what is written for the validators read. In the others either a participation other than
0 and 1 comes first, or the input ends first. -/
theorem records_exact :
    (∀ header, Header.format.SelfDelimiting header) ∧
    (∀ height : Height, Format.word.SelfDelimiting height) ∧
    (∀ quorum, Quorum.format.SelfDelimiting quorum) ∧
    (∀ validators : List Validator, validators.length ≤ Word.maxNat →
      Validator.listFormat.SelfDelimiting validators ∧
        ∀ (s : Store) (db : Database),
          Registry.ofState ((s.setValidators validators).view db) = .ok validators) ∧
    ∀ bytes : List UInt8,
      (∀ validators, Validator.listFormat.read bytes = .ok validators →
        Validator.listFormat.encode validators <+: bytes) ∧
      ((∃ validators, Validator.listFormat.read bytes = .ok validators) ↔
        room bytes ≤ bytes.length ∧
          ∀ i < count bytes, ∃ b, participation? bytes i = some b ∧ IsBool b) ∧
      (∀ b, Validator.listFormat.read bytes = .error (.invalidBool b) ↔
        ∃ i < count bytes, participation? bytes i = some b ∧ ¬ IsBool b ∧
          ∀ j < i, ∃ c, participation? bytes j = some c ∧ IsBool c) ∧
      (Validator.listFormat.read bytes = .error .endOfInput ↔
        bytes.length < room bytes ∧
          ∀ i < count bytes, ∀ b, participation? bytes i = some b → IsBool b) := by
  refine ⟨Header.selfDelimiting_format, selfDelimiting_word, Quorum.selfDelimiting_format,
    fun validators hlength => ?_, fun bytes => ?_⟩
  · exact ⟨Validator.selfDelimiting_listFormat hlength, Validator.ofState_setValidators hlength⟩
  · exact ⟨fun _ => Validator.isCanonical_listFormat.encode_isPrefix,
      Validator.exists_read_listFormat_iff, fun _ => Validator.read_listFormat_eq_invalidBool_iff,
      Validator.read_listFormat_eq_endOfInput_iff⟩

/-- Two validators, their bytes cut off in the second one, and bytes that announce as many
validators as a word can count, the second of them at fault and the third broken off. -/
theorem records_exact_of_two :
    let validators : List Validator := [⟨.ofNat 7, true, 3⟩, ⟨.ofNat 5, false, 0⟩]
    let encoded := Validator.listFormat.encode validators
    let address := List.replicate 20 (9 : UInt8)
    let bytes := List.replicate 8 (255 : UInt8) ++ address ++ [1] ++ littleEndian 8 4 ++ address ++
      [7] ++ littleEndian 8 0 ++ [2, 2]
    (validators.length ≤ Word.maxNat ∧
      Validator.listFormat.decode (encoded ++ [2]) = .ok (validators, [2]) ∧
      Validator.listFormat.decode (encoded.take 60) = .error .endOfInput ∧
      Registry.ofState (((Store.ofHeaders (.empty 1)).setValidators validators).view ⟨∅, true⟩) =
        .ok validators) ∧
    count bytes = Word.maxNat ∧
      Validator.listFormat.read bytes = .error (.invalidBool 7) := by
  intro validators encoded address bytes
  have hlength : validators.length ≤ Word.maxNat := by decide
  obtain ⟨hself, hstate⟩ := records_exact.2.2.2.1 validators hlength
  obtain ⟨-, -, hinvalid, -⟩ := records_exact.2.2.2.2 bytes
  have hpart : encoded.take 60 <+: encoded := List.take_prefix 60 encoded
  refine ⟨⟨hlength, hself.reads [2], hself.breaksOff _ hpart ?_, hstate _ _⟩,
    by decide +kernel, (hinvalid 7).mpr ⟨1, by decide +kernel, by decide +kernel, ?_, ?_⟩⟩
  · decide +kernel
  · simp [IsBool]
  · intro j hj
    obtain rfl : j = 0 := by omega
    exact ⟨1, by decide +kernel, .inr rfl⟩

end FinalityGadget
