import FinalityGadget.Proofs.FixedWidth
import FinalityGadget.Proofs.Height

/-!
# Records that show where they end

A written record is read back whatever follows it, and is not read as anything where it breaks off.
In a canonical format the converse holds as well: whatever is read was taken from the bytes that are
written for it.
-/

namespace FinalityGadget.Format

variable {α β : Type} {f : Format α} {g : Format β}

/-- What is written for `a` is read back whatever follows it, and no shorter part of it is read. -/
structure SelfDelimiting (f : Format α) (a : α) : Prop where
  reads : f.Reads a
  breaksOff : ∀ bytes, bytes <+: f.encode a → bytes ≠ f.encode a →
    f.decode bytes = .error .endOfInput

theorem strictPrefix_append_cases {bytes first second : List UInt8}
    (hpart : bytes <+: first ++ second) (hne : bytes ≠ first ++ second) :
    (bytes <+: first ∧ bytes ≠ first) ∨
      ∃ rest, bytes = first ++ rest ∧ rest <+: second ∧ rest ≠ second := by
  rcases List.prefix_or_prefix_of_prefix hpart (List.prefix_append first second) with
    hfirst | ⟨rest, rfl⟩
  · by_cases heq : bytes = first
    · refine .inr ⟨[], by rw [heq, List.append_nil], List.nil_prefix, fun hnil => ?_⟩
      rw [← hnil, List.append_nil] at hne
      exact hne heq
    · exact .inl ⟨hfirst, heq⟩
  · have hrest := (List.prefix_append_right_inj first).mp hpart
    exact .inr ⟨rest, rfl, hrest, fun heq => hne (by rw [heq])⟩

theorem IsFixed.selfDelimiting {k : Nat} {value : List UInt8 → α} {a : α} (hf : f.IsFixed k value)
    (hreads : f.Reads a) (hlength : (f.encode a).length = k) : f.SelfDelimiting a := by
  refine ⟨hreads, fun bytes hpart hne => ?_⟩
  have hshort : ¬ k ≤ bytes.length := by
    intro hle
    rw [← hlength] at hle
    exact hne (hpart.eq_of_length_le hle)
  rw [hf bytes, if_neg hshort]

theorem selfDelimiting_word (w : Word) : word.SelfDelimiting w :=
  isFixed_word.selfDelimiting (reads_word w) (length_littleEndian 8 w.toNat)

theorem selfDelimiting_bytes {n : Nat} (b : Bytes n) : (bytes n).SelfDelimiting b :=
  (isFixed_bytes n).selfDelimiting (reads_bytes b) b.length_toList

theorem selfDelimiting_bool (b : Bool) : bool.SelfDelimiting b := by
  refine ⟨reads_bool b, fun bytes hpart hne => ?_⟩
  cases bytes with
  | nil => rfl
  | cons first rest =>
      have hlength : (bool.encode b).length ≤ (first :: rest).length := by simp [bool]
      exact absurd (hpart.eq_of_length_le hlength) hne

theorem SelfDelimiting.pair {a : α} {b : β} (ha : f.SelfDelimiting a) (hb : g.SelfDelimiting b) :
    (f.pair g).SelfDelimiting (a, b) := by
  refine ⟨ha.reads.pair hb.reads, fun bytes hpart hne => ?_⟩
  rcases strictPrefix_append_cases hpart hne with ⟨hfirst, hfirstNe⟩ | ⟨rest, rfl, hrest, hrestNe⟩
  · simp only [Format.pair, ha.breaksOff bytes hfirst hfirstNe]
    rfl
  · simp only [Format.pair, ha.reads rest, bind, Except.bind, hb.breaksOff rest hrest hrestNe]

theorem SelfDelimiting.via {toα : β → α} {ofα : α → β} {b : β} (h : f.SelfDelimiting (toα b))
    (hinv : ofα (toα b) = b) : (f.via toα ofα).SelfDelimiting b := by
  refine ⟨h.reads.via hinv, fun bytes hpart hne => ?_⟩
  simp only [Format.via, h.breaksOff bytes hpart hne]
  rfl

theorem decodeItems_of_breaksOff {items : List α} (h : ∀ a ∈ items, f.SelfDelimiting a)
    {bytes : List UInt8} (hpart : bytes <+: items.flatMap f.encode)
    (hne : bytes ≠ items.flatMap f.encode) :
    decodeItems f items.length bytes = .error .endOfInput := by
  induction items generalizing bytes with
  | nil => exact absurd (List.prefix_nil.mp hpart) hne
  | cons a items ih =>
      have ha := h a List.mem_cons_self
      rw [List.flatMap_cons] at hpart hne
      rw [List.length_cons, decodeItems]
      rcases strictPrefix_append_cases hpart hne with
        ⟨hfirst, hfirstNe⟩ | ⟨rest, rfl, hrest, hrestNe⟩
      · rw [ha.breaksOff bytes hfirst hfirstNe]
        rfl
      · have hothers := ih (fun b hb => h b (List.mem_cons_of_mem a hb)) hrest hrestNe
        simp only [ha.reads rest, bind, Except.bind, hothers]

theorem SelfDelimiting.list {items : List α} (h : ∀ a ∈ items, f.SelfDelimiting a)
    (hlength : items.length ≤ Word.maxNat) : (Format.list f).SelfDelimiting items := by
  refine ⟨Reads.list (fun a ha => (h a ha).reads) hlength, fun bytes hpart hne => ?_⟩
  rcases strictPrefix_append_cases hpart hne with ⟨hfirst, hfirstNe⟩ | ⟨rest, rfl, hrest, hrestNe⟩
  · simp only [Format.list, (selfDelimiting_word _).breaksOff bytes hfirst hfirstNe]
    rfl
  · have hcount := Word.toNat_ofNat_of_le hlength
    simp only [Format.list, reads_word _ rest, bind, Except.bind, hcount,
      decodeItems_of_breaksOff h hrest hrestNe]

/-! ## Canonical formats -/

/-- Whatever is read was taken from the bytes that are written for it. -/
def IsCanonical (f : Format α) : Prop :=
  ∀ bytes a rest, f.decode bytes = .ok (a, rest) → f.encode a ++ rest = bytes

theorem isCanonical_word : word.IsCanonical := by
  intro bytes w rest h
  obtain ⟨⟨taken, left⟩, htake, hvalue⟩ := bind_eq_ok_iff.mp h
  obtain ⟨rfl, rfl⟩ := Prod.mk.inj (Except.ok.inj hvalue)
  have hlength := length_of_takeBytes htake
  have hlt : ofLittleEndian taken < 2 ^ 64 := by
    have hbound := ofLittleEndian_lt taken
    rwa [hlength] at hbound
  have hencode : word.encode (UInt64.ofNat (ofLittleEndian taken)) = taken := by
    simp only [word]
    rw [UInt64.toNat_ofNat_of_lt' hlt, ← hlength, littleEndian_ofLittleEndian]
  rw [hencode]
  exact append_of_takeBytes htake

theorem isCanonical_bool : bool.IsCanonical := by
  intro bytes b rest h
  cases bytes with
  | nil => simp [bool] at h
  | cons first others =>
      simp only [bool] at h
      split_ifs at h with hzero hone
      · obtain ⟨rfl, rfl⟩ := Prod.mk.inj (Except.ok.inj h)
        simp [bool, hzero]
      · obtain ⟨rfl, rfl⟩ := Prod.mk.inj (Except.ok.inj h)
        simp [bool, hone]

theorem isCanonical_bytes (n : Nat) : (bytes n).IsCanonical := by
  intro input b rest h
  exact append_of_takeBytes (takeBytes_of_bytes h)

theorem IsCanonical.pair (hf : f.IsCanonical) (hg : g.IsCanonical) : (f.pair g).IsCanonical := by
  intro bytes p rest h
  obtain ⟨⟨a, middle⟩, ha, hrest⟩ := bind_eq_ok_iff.mp h
  obtain ⟨⟨b, left⟩, hb, hp⟩ := bind_eq_ok_iff.mp hrest
  obtain ⟨rfl, rfl⟩ := Prod.mk.inj (Except.ok.inj hp)
  simp only [Format.pair, List.append_assoc]
  rw [hg _ _ _ hb, hf _ _ _ ha]

theorem IsCanonical.via {toα : β → α} {ofα : α → β} (hf : f.IsCanonical)
    (hinv : ∀ a, toα (ofα a) = a) : (f.via toα ofα).IsCanonical := by
  intro bytes b rest h
  obtain ⟨⟨a, left⟩, ha, hb⟩ := bind_eq_ok_iff.mp h
  obtain ⟨rfl, rfl⟩ := Prod.mk.inj (Except.ok.inj hb)
  simp only [Format.via, hinv]
  exact hf _ _ _ ha

theorem IsCanonical.decodeItems (hf : f.IsCanonical) {count : Nat} {bytes rest : List UInt8}
    {items : List α} (h : decodeItems f count bytes = .ok (items, rest)) :
    items.length = count ∧ items.flatMap f.encode ++ rest = bytes := by
  induction count generalizing bytes items with
  | zero =>
      obtain ⟨rfl, rfl⟩ := Prod.mk.inj (Except.ok.inj h)
      exact ⟨rfl, rfl⟩
  | succ count ih =>
      obtain ⟨⟨item, middle⟩, hitem, hrest⟩ := bind_eq_ok_iff.mp h
      obtain ⟨⟨others, left⟩, hothers, hall⟩ := bind_eq_ok_iff.mp hrest
      obtain ⟨rfl, rfl⟩ := Prod.mk.inj (Except.ok.inj hall)
      obtain ⟨hlength, hbytes⟩ := ih hothers
      refine ⟨by rw [List.length_cons, hlength], ?_⟩
      rw [List.flatMap_cons, List.append_assoc, hbytes, hf _ _ _ hitem]

theorem IsCanonical.list (hf : f.IsCanonical) : (Format.list f).IsCanonical := by
  intro bytes items rest h
  obtain ⟨⟨count, middle⟩, hcount, hitems⟩ := bind_eq_ok_iff.mp h
  obtain ⟨hlength, hmiddle⟩ := hf.decodeItems hitems
  simp only [Format.list, List.append_assoc]
  rw [hlength, UInt64.ofNat_toNat, hmiddle, isCanonical_word _ _ _ hcount]

theorem IsCanonical.encode_isPrefix (hf : f.IsCanonical) {bytes : List UInt8} {a : α}
    (hread : f.read bytes = .ok a) : f.encode a <+: bytes := by
  cases hdecode : f.decode bytes with
  | error e => simp [read, hdecode, Except.map] at hread
  | ok decoded =>
      obtain ⟨value, rest⟩ := decoded
      simp only [read, hdecode, Except.map, Except.ok.injEq] at hread
      subst hread
      exact ⟨rest, hf _ _ _ hdecode⟩

end FinalityGadget.Format
