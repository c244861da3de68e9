import FinalityGadget.Config.Tree
import FinalityGadget.Proofs.Entries

/-!
# Places in a JSON value

The names of fields, one below the other, lead to a place in a value (`at?`). Putting a value at a
place changes what stands there and below, makes objects of the places on the way, and keeps
everything else; it fails only if something on the way is not an object. The leaves of a value are
the places where something other than an object stands.
-/

namespace FinalityGadget.Json

section Fields

theorem lookup_cons_of_ne {key name : String} (hne : key ≠ name) (value : Json)
    (fields : List (String × Json)) :
    List.lookup key ((name, value) :: fields) = fields.lookup key := by
  rw [List.lookup_cons, beq_eq_false_iff_ne.mpr hne]

theorem lookup_insertField (name : String) (value : Json) (fields : List (String × Json))
    (key : String) :
    (insertField name value fields).lookup key =
      if key = name then some value else fields.lookup key := by
  by_cases hkey : key = name
  · subst hkey
    rw [if_pos rfl]
    fun_induction insertField key value fields with
    | case1 => exact List.lookup_cons_self
    | case2 => exact List.lookup_cons_self
    | case3 => exact List.lookup_cons_self
    | case4 other old rest horder ih =>
        have hne : key ≠ other := by
          rintro rfl
          simp at horder
        rw [lookup_cons_of_ne hne, ih]
  · rw [if_neg hkey]
    fun_induction insertField name value fields with
    | case1 => exact lookup_cons_of_ne hkey _ _
    | case2 => exact lookup_cons_of_ne hkey _ _
    | case3 other old rest horder =>
        obtain rfl := Std.LawfulEqCmp.compare_eq_iff_eq.mp horder
        rw [lookup_cons_of_ne hkey, lookup_cons_of_ne hkey]
    | case4 other old rest horder ih => rw [List.lookup_cons, List.lookup_cons, ih]

theorem mem_insertField {name : String} {value : Json} {fields : List (String × Json)}
    {field : String × Json} (hmem : field ∈ insertField name value fields) :
    field = (name, value) ∨ field ∈ fields := by
  fun_induction insertField name value fields with
  | case1 => simpa using hmem
  | case2 => simpa using hmem
  | case3 other old rest horder =>
      rcases List.mem_cons.mp hmem with h | h
      · exact .inl h
      · exact .inr (List.mem_cons_of_mem _ h)
  | case4 other old rest horder ih =>
      rcases List.mem_cons.mp hmem with h | h
      · exact .inr (h ▸ List.mem_cons_self)
      · exact (ih h).imp_right (List.mem_cons_of_mem _)

theorem ascending_insertField {fields : List (String × Json)} (hfields : Ascending fields)
    (name : String) (value : Json) : Ascending (insertField name value fields) := by
  fun_induction insertField name value fields with
  | case1 => exact List.pairwise_singleton _ _
  | case2 other old rest horder =>
      have hrest := List.pairwise_cons.mp hfields
      refine List.pairwise_cons.mpr ⟨?_, hfields⟩
      intro field hmem
      rcases List.mem_cons.mp hmem with rfl | hmem
      · exact horder
      · exact Std.TransCmp.lt_trans horder (hrest.1 field hmem)
  | case3 other old rest horder =>
      obtain rfl := Std.LawfulEqCmp.compare_eq_iff_eq.mp horder
      exact List.pairwise_cons.mpr (List.pairwise_cons.mp hfields)
  | case4 other old rest horder ih =>
      obtain ⟨hbelow, hrest⟩ := List.pairwise_cons.mp hfields
      refine List.pairwise_cons.mpr ⟨?_, ih hrest⟩
      intro field hmem
      rcases mem_insertField hmem with rfl | hmem
      · exact Std.OrientedCmp.gt_iff_lt.mp horder
      · exact hbelow field hmem

end Fields

/-- What stands where the segments lead below a value. -/
def at? : (segments : List String) → (tree : Json) → Option Json
  | [], tree => some tree
  | segment :: segments, .object fields => (fields.lookup segment).bind (at? segments)
  | _ :: _, _ => none

def IsObject : Json → Prop
  | .object _ => True
  | _ => False

theorem isObject_iff {tree : Json} : tree.IsObject ↔ ∃ fields, tree = .object fields := by
  cases tree <;> simp [IsObject]

section Places

@[simp] theorem at?_nil (tree : Json) : at? [] tree = some tree := rfl

@[simp] theorem at?_cons_object (segment : String) (segments : List String)
    (fields : List (String × Json)) :
    at? (segment :: segments) (.object fields) =
      (fields.lookup segment).bind (at? segments) := rfl

theorem at?_cons_of_not_isObject {tree : Json} (htree : ¬ tree.IsObject) (segment : String)
    (segments : List String) : at? (segment :: segments) tree = none := by
  cases tree <;> simp_all [at?, IsObject]

theorem at?_of_not_isObject {tree value : Json} (htree : ¬ tree.IsObject) {segments : List String} :
    at? segments tree = some value ↔ segments = [] ∧ value = tree := by
  cases segments with
  | nil => simp [eq_comm]
  | cons segment segments => simp [at?_cons_of_not_isObject htree]

end Places

section Putting

variable {value tree grown : Json}

theorem setPath?_cons_eq_some {segment : String} {segments : List String} :
    setPath? value (segment :: segments) tree = some grown ↔
      ∃ fields child, tree = .object fields ∧
        setPath? value segments ((fields.lookup segment).getD (.object [])) = some child ∧
        grown = .object (insertField segment child fields) := by
  cases tree with
  | object fields => simp [setPath?, eq_comm]
  | _ => simp [setPath?]

/-- Of a field that is missing, an empty object takes the place, in which nothing stands. -/
theorem at?_getD_of_ne_nil (fields : List (String × Json)) (segment : String)
    {segments : List String} (hsegments : segments ≠ []) :
    at? segments ((fields.lookup segment).getD (.object [])) =
      at? (segment :: segments) (.object fields) := by
  rw [at?_cons_object]
  cases fields.lookup segment with
  | some child => rfl
  | none =>
      cases segments with
      | nil => exact absurd rfl hsegments
      | cons _ _ => rfl

theorem at?_getD_iff_of_not_isObject {fields : List (String × Json)} {segment : String}
    {segments : List String} {place : Json} (hplace : ¬ place.IsObject) :
    at? segments ((fields.lookup segment).getD (.object [])) = some place ↔
      at? (segment :: segments) (.object fields) = some place := by
  cases segments with
  | cons _ _ => rw [at?_getD_of_ne_nil fields segment (List.cons_ne_nil _ _)]
  | nil =>
      rw [at?_cons_object]
      cases fields.lookup segment with
      | some child => rfl
      | none =>
          have hne : Json.object [] ≠ place := by
            rintro rfl
            exact hplace trivial
          simpa using hne

theorem at?_append_of_setPath? {segments : List String}
    (hset : setPath? value segments tree = some grown) (below : List String) :
    grown.at? (segments ++ below) = value.at? below := by
  induction segments generalizing tree grown with
  | nil =>
      obtain rfl : value = grown := by simpa [setPath?] using hset
      rfl
  | cons segment segments ih =>
      obtain ⟨fields, child, rfl, hchild, rfl⟩ := setPath?_cons_eq_some.mp hset
      rw [List.cons_append, at?_cons_object, lookup_insertField, if_pos rfl, Option.bind_some,
        ih hchild]

theorem isObject_of_setPath? {segments above : List String} {place : Json}
    (hset : setPath? value segments tree = some grown) (habove : above <+: segments)
    (hne : above ≠ segments) (hplace : grown.at? above = some place) : place.IsObject := by
  induction segments generalizing tree grown above with
  | nil => exact absurd (List.prefix_nil.mp habove) hne
  | cons segment segments ih =>
      obtain ⟨fields, child, rfl, hchild, rfl⟩ := setPath?_cons_eq_some.mp hset
      cases above with
      | nil =>
          obtain rfl : Json.object _ = place := by simpa using hplace
          trivial
      | cons first above =>
          obtain ⟨rfl, hbegins⟩ := List.cons_prefix_cons.mp habove
          rw [at?_cons_object, lookup_insertField, if_pos rfl, Option.bind_some] at hplace
          exact ih hchild hbegins (by simpa using hne) hplace

theorem at?_of_setPath?_of_not_isPrefix {segments other : List String}
    (hset : setPath? value segments tree = some grown) (hbelow : ¬ segments <+: other)
    (habove : ¬ other <+: segments) : grown.at? other = tree.at? other := by
  induction segments generalizing tree grown other with
  | nil => exact absurd List.nil_prefix hbelow
  | cons segment segments ih =>
      obtain ⟨fields, child, rfl, hchild, rfl⟩ := setPath?_cons_eq_some.mp hset
      cases other with
      | nil => exact absurd List.nil_prefix habove
      | cons first other =>
          rw [at?_cons_object, at?_cons_object, lookup_insertField]
          by_cases hfirst : first = segment
          · subst hfirst
            rw [List.prefix_cons_inj] at hbelow habove
            have hother : other ≠ [] := by
              rintro rfl
              exact habove List.nil_prefix
            rw [if_pos rfl, Option.bind_some, ih hchild hbelow habove,
              at?_getD_of_ne_nil fields first hother, at?_cons_object]
          · rw [if_neg hfirst]

theorem setPath?_eq_none_iff {segments : List String} :
    setPath? value segments tree = none ↔
      ∃ above place, above <+: segments ∧ above ≠ segments ∧ tree.at? above = some place ∧
        ¬ place.IsObject := by
  induction segments generalizing tree with
  | nil => simp [setPath?]
  | cons segment segments ih =>
      by_cases htree : tree.IsObject
      · obtain ⟨fields, rfl⟩ := isObject_iff.mp htree
        rw [setPath?, Option.map_eq_none_iff, ih]
        constructor
        · rintro ⟨above, place, habove, hne, hplace, hleaf⟩
          exact ⟨segment :: above, place, List.cons_prefix_cons.mpr ⟨rfl, habove⟩, by simpa,
            (at?_getD_iff_of_not_isObject hleaf).mp hplace, hleaf⟩
        · rintro ⟨above, place, habove, hne, hplace, hleaf⟩
          cases above with
          | nil =>
              obtain rfl : Json.object fields = place := by simpa using hplace
              exact absurd trivial hleaf
          | cons first above =>
              obtain ⟨rfl, hbegins⟩ := List.cons_prefix_cons.mp habove
              exact ⟨above, place, hbegins, by simpa using hne,
                (at?_getD_iff_of_not_isObject hleaf).mpr hplace, hleaf⟩
      · have hset : setPath? value (segment :: segments) tree = none := by
          cases tree <;> simp_all [setPath?, IsObject]
        simp only [hset, true_iff]
        exact ⟨[], tree, List.nil_prefix, by simp, rfl, htree⟩

/-- Putting a value that is not an object makes it the only leaf at its place and below; the other
leaves stay. -/
theorem leaf_iff_of_setPath? {segments other : List String} {leaf : Json}
    (hvalue : ¬ value.IsObject) (hset : setPath? value segments tree = some grown) :
    grown.at? other = some leaf ∧ ¬ leaf.IsObject ↔
      (other = segments ∧ leaf = value) ∨
        (tree.at? other = some leaf ∧ ¬ leaf.IsObject) ∧ ¬ segments <+: other := by
  by_cases hbelow : segments <+: other
  · obtain ⟨rest, rfl⟩ := hbelow
    rw [at?_append_of_setPath? hset, at?_of_not_isObject hvalue]
    constructor
    · rintro ⟨⟨rfl, rfl⟩, -⟩
      exact .inl ⟨List.append_nil _, rfl⟩
    · rintro (⟨hother, rfl⟩ | ⟨-, hnot⟩)
      · exact ⟨⟨by simpa using hother, rfl⟩, hvalue⟩
      · exact absurd (List.prefix_append _ _) hnot
  · have hne : other ≠ segments := by
      rintro rfl
      exact hbelow List.prefix_rfl
    by_cases habove : other <+: segments
    · constructor
      · rintro ⟨hplace, hleaf⟩
        exact absurd (isObject_of_setPath? hset habove hne hplace) hleaf
      · rintro (⟨heq, -⟩ | ⟨⟨hplace, hleaf⟩, -⟩)
        · exact absurd heq hne
        · have hnone : setPath? value segments tree = none :=
            setPath?_eq_none_iff.mpr ⟨other, leaf, habove, hne, hplace, hleaf⟩
          rw [hset] at hnone
          cases hnone
    · rw [at?_of_setPath?_of_not_isPrefix hset hbelow habove]
      simp [hne, hbelow]

end Putting

section Leaves

/-- The fields of every object in a value have ascending names. -/
def Sorted (tree : Json) : Prop :=
  ∀ segments fields, tree.at? segments = some (.object fields) → Ascending fields

theorem sorted_of_not_isObject {value : Json} (hvalue : ¬ value.IsObject) : value.Sorted := by
  intro segments fields hplace
  obtain ⟨-, rfl⟩ := (at?_of_not_isObject hvalue).mp hplace
  exact absurd trivial hvalue

theorem sorted_object_iff {fields : List (String × Json)} :
    (Json.object fields).Sorted ↔
      Ascending fields ∧ ∀ name child, fields.lookup name = some child → child.Sorted := by
  constructor
  · intro hsorted
    refine ⟨hsorted [] fields rfl, ?_⟩
    intro name child hlookup segments below hplace
    exact hsorted (name :: segments) below (by rw [at?_cons_object, hlookup]; exact hplace)
  · rintro ⟨hfields, hchildren⟩ segments below hplace
    cases segments with
    | nil =>
        obtain rfl : fields = below := by simpa using hplace
        exact hfields
    | cons name segments =>
        obtain ⟨child, hlookup, hplace⟩ := Option.bind_eq_some_iff.mp hplace
        exact hchildren name child hlookup segments below hplace

theorem sorted_emptyObject : (Json.object []).Sorted :=
  sorted_object_iff.mpr ⟨List.Pairwise.nil, fun _ _ hlookup => by simp at hlookup⟩

theorem Sorted.setPath? {value tree grown : Json} {segments : List String} (htree : tree.Sorted)
    (hvalue : value.Sorted) (hset : setPath? value segments tree = some grown) : grown.Sorted := by
  induction segments generalizing tree grown with
  | nil =>
      obtain rfl : value = grown := by simpa [Json.setPath?] using hset
      exact hvalue
  | cons segment segments ih =>
      obtain ⟨fields, child, rfl, hchild, rfl⟩ := setPath?_cons_eq_some.mp hset
      obtain ⟨hfields, hchildren⟩ := sorted_object_iff.mp htree
      refine sorted_object_iff.mpr ⟨ascending_insertField hfields segment child, ?_⟩
      intro name other hlookup
      rw [lookup_insertField] at hlookup
      split at hlookup
      · obtain rfl : child = other := by simpa using hlookup
        refine ih ?_ hchild
        cases hold : fields.lookup segment with
        | some old => exact hchildren segment old hold
        | none => exact sorted_emptyObject
      · exact hchildren name other hlookup

mutual

/-- The places where something other than an object stands, and what stands there. -/
def leaves : Json → List (List String × Json)
  | .object fields => fieldLeaves fields
  | value => [([], value)]

/-- The leaves below fields, each with the name of its field before its place. -/
def fieldLeaves : List (String × Json) → List (List String × Json)
  | [] => []
  | (name, child) :: fields =>
    (leaves child).map (fun leaf => (name :: leaf.1, leaf.2)) ++ fieldLeaves fields

end

theorem leaves_of_not_isObject {value : Json} (hvalue : ¬ value.IsObject) :
    value.leaves = [([], value)] := by
  cases value <;> first | exact absurd trivial hvalue | rfl

theorem mem_fieldLeaves {fields : List (String × Json)} {segments : List String} {value : Json} :
    (segments, value) ∈ fieldLeaves fields ↔
      ∃ name child below, (name, child) ∈ fields ∧ segments = name :: below ∧
        (below, value) ∈ child.leaves := by
  induction fields with
  | nil => simp [fieldLeaves]
  | cons field fields ih =>
      obtain ⟨first, grandchild⟩ := field
      rw [fieldLeaves, List.mem_append, ih, List.mem_map]
      constructor
      · rintro (⟨⟨below, leaf⟩, hleaf, heq⟩ | ⟨name, child, below, hmem, rfl, hleaf⟩)
        · obtain ⟨rfl, rfl⟩ := Prod.mk.inj heq
          exact ⟨first, grandchild, below, List.mem_cons_self, rfl, hleaf⟩
        · exact ⟨name, child, below, List.mem_cons_of_mem _ hmem, rfl, hleaf⟩
      · rintro ⟨name, child, below, hmem, rfl, hleaf⟩
        rcases List.mem_cons.mp hmem with heq | hmem
        · obtain ⟨rfl, rfl⟩ := Prod.mk.inj heq
          exact .inl ⟨(below, value), hleaf, rfl⟩
        · exact .inr ⟨name, child, below, hmem, rfl, hleaf⟩

theorem mem_leaves_iff {tree value : Json} {segments : List String} (htree : tree.Sorted) :
    (segments, value) ∈ tree.leaves ↔ tree.at? segments = some value ∧ ¬ value.IsObject := by
  induction segments generalizing tree with
  | nil =>
      by_cases hobject : tree.IsObject
      · obtain ⟨fields, rfl⟩ := isObject_iff.mp hobject
        rw [leaves, mem_fieldLeaves]
        constructor
        · rintro ⟨_, _, _, -, hnil, -⟩
          simp at hnil
        · rintro ⟨hplace, hleaf⟩
          obtain rfl : Json.object fields = value := by simpa using hplace
          exact absurd trivial hleaf
      · rw [leaves_of_not_isObject hobject]
        constructor
        · intro hmem
          obtain rfl : value = tree := by simpa using hmem
          exact ⟨rfl, hobject⟩
        · rintro ⟨hplace, -⟩
          obtain rfl : tree = value := by simpa using hplace
          exact List.mem_singleton_self _
  | cons name segments ih =>
      by_cases hobject : tree.IsObject
      · obtain ⟨fields, rfl⟩ := isObject_iff.mp hobject
        obtain ⟨hfields, hchildren⟩ := sorted_object_iff.mp htree
        rw [leaves, mem_fieldLeaves, at?_cons_object, Option.bind_eq_some_iff]
        constructor
        · rintro ⟨_, child, _, hmem, hcons, hleaf⟩
          obtain ⟨rfl, rfl⟩ := List.cons.inj hcons
          have hlookup := hfields.lookup_eq_some_iff.mpr hmem
          obtain ⟨hplace, hvalue⟩ := (ih (hchildren _ child hlookup)).mp hleaf
          exact ⟨⟨child, hlookup, hplace⟩, hvalue⟩
        · rintro ⟨⟨child, hlookup, hplace⟩, hvalue⟩
          exact ⟨name, child, segments, hfields.lookup_eq_some_iff.mp hlookup, rfl,
            (ih (hchildren name child hlookup)).mpr ⟨hplace, hvalue⟩⟩
      · simp [leaves_of_not_isObject hobject, at?_cons_of_not_isObject hobject]

end Leaves

end FinalityGadget.Json
