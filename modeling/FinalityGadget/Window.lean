import FinalityGadget.Header

/-!
# The window of recent headers

A window holds the headers of the highest heights seen, at most one for each height and at most
`capacity` of them, listed from the highest height down.
-/

namespace FinalityGadget

structure Window where
  capacity : Nat
  headers : List Header
  descending : headers.Pairwise fun a b => b.height < a.height
  length_le : headers.length ≤ capacity
deriving DecidableEq

namespace Window

def empty (capacity : Nat) : Window := ⟨capacity, [], .nil, Nat.zero_le _⟩

/-- Puts a header among headers of descending heights, in place of one of the same height. -/
def place (header : Header) : List Header → List Header
  | [] => [header]
  | h :: rest =>
    if h.height < header.height then header :: h :: rest
    else if h.height = header.height then header :: rest
    else h :: place header rest

theorem mem_place {header h : Header} {headers : List Header}
    (hdesc : headers.Pairwise fun a b => b.height < a.height) :
    h ∈ place header headers ↔ h = header ∨ h ∈ headers ∧ h.height ≠ header.height := by
  induction headers with
  | nil => simp [place]
  | cons g rest ih =>
    obtain ⟨hg, hrest⟩ := List.pairwise_cons.mp hdesc
    have hne : ∀ {x y : Header}, x.height < y.height → x.height ≠ y.height :=
      fun hlt heq => UInt64.lt_irrefl _ (heq ▸ hlt)
    simp only [place]
    split
    · rename_i hlt
      have hall : ∀ x ∈ g :: rest, x.height ≠ header.height := by
        intro x hx
        rcases List.mem_cons.mp hx with rfl | hx
        · exact hne hlt
        · exact hne (UInt64.lt_trans (hg x hx) hlt)
      rw [List.mem_cons]
      exact or_congr_right ⟨fun hx => ⟨hx, hall h hx⟩, And.left⟩
    · split
      · rename_i heq
        have hall : ∀ x ∈ rest, x.height ≠ header.height := fun x hx => heq ▸ hne (hg x hx)
        have hother : h ∈ g :: rest ∧ h.height ≠ header.height ↔ h ∈ rest := by
          constructor
          · rintro ⟨hx, hheight⟩
            rcases List.mem_cons.mp hx with rfl | hx
            · exact absurd heq hheight
            · exact hx
          · exact fun hx => ⟨List.mem_cons_of_mem _ hx, hall h hx⟩
        rw [List.mem_cons, hother]
      · rename_i hneq
        rw [List.mem_cons, List.mem_cons, ih hrest]
        constructor
        · rintro (rfl | rfl | ⟨hx, hheight⟩)
          · exact .inr ⟨.inl rfl, hneq⟩
          · exact .inl rfl
          · exact .inr ⟨.inr hx, hheight⟩
        · rintro (rfl | ⟨rfl | hx, hheight⟩)
          · exact .inr (.inl rfl)
          · exact .inl rfl
          · exact .inr (.inr ⟨hx, hheight⟩)

theorem descending_place {header : Header} {headers : List Header}
    (hdesc : headers.Pairwise fun a b => b.height < a.height) :
    (place header headers).Pairwise fun a b => b.height < a.height := by
  induction headers with
  | nil => simp [place]
  | cons g rest ih =>
    obtain ⟨hg, hrest⟩ := List.pairwise_cons.mp hdesc
    simp only [place]
    split
    · rename_i hlt
      refine List.pairwise_cons.mpr ⟨fun h hmem => ?_, hdesc⟩
      rcases List.mem_cons.mp hmem with rfl | hmem
      · exact hlt
      · exact UInt64.lt_trans (hg h hmem) hlt
    · split
      · rename_i heq
        exact List.pairwise_cons.mpr ⟨fun h hmem => heq ▸ hg h hmem, hrest⟩
      · rename_i hnlt hne
        refine List.pairwise_cons.mpr ⟨fun h hmem => ?_, ih hrest⟩
        rcases (mem_place hrest).mp hmem with rfl | ⟨hmem, _⟩
        · rw [UInt64.lt_iff_toNat_lt] at hnlt ⊢
          rw [← UInt64.toNat_inj] at hne
          omega
        · exact hg h hmem

/-- Inserts a header and drops the lowest heights beyond the capacity. -/
def insert (w : Window) (header : Header) : Window where
  capacity := w.capacity
  headers := (place header w.headers).take w.capacity
  descending := (descending_place w.descending).take
  length_le := by simp only [List.length_take]; omega

def get? (w : Window) (height : Height) : Option Header :=
  w.headers.find? fun h => h.height = height

theorem eq_of_height_eq {w : Window} {a b : Header} (ha : a ∈ w.headers) (hb : b ∈ w.headers)
    (heq : a.height = b.height) : a = b := by
  have hdesc := w.descending
  generalize w.headers = headers at ha hb hdesc
  induction headers with
  | nil => simp at ha
  | cons g rest ih =>
    obtain ⟨hg, hrest⟩ := List.pairwise_cons.mp hdesc
    rcases List.mem_cons.mp ha with rfl | hmema <;> rcases List.mem_cons.mp hb with rfl | hmemb
    · rfl
    · exact absurd (heq ▸ hg b hmemb) (UInt64.lt_irrefl _)
    · exact absurd (heq ▸ hg a hmema) (UInt64.lt_irrefl _)
    · exact ih hmema hmemb hrest

theorem get?_eq_some_iff {w : Window} {height : Height} {h : Header} :
    w.get? height = some h ↔ h ∈ w.headers ∧ h.height = height := by
  constructor
  · intro hget
    exact ⟨List.mem_of_find?_eq_some hget, by simpa using List.find?_some hget⟩
  · rintro ⟨hmem, rfl⟩
    cases hget : w.get? h.height with
    | none =>
      have hnone := List.find?_eq_none.mp hget h hmem
      simp at hnone
    | some g =>
      have hheight : g.height = h.height := by simpa using List.find?_some hget
      rw [eq_of_height_eq (List.mem_of_find?_eq_some hget) hmem hheight]

/-- The highest header that a generator forged. -/
def lastBy? (w : Window) (generator : Address) : Option Header :=
  w.headers.find? fun h => h.generator = generator

def size (w : Window) : Nat := w.headers.length

def isEmpty (w : Window) : Bool := w.headers.isEmpty

end Window

end FinalityGadget
