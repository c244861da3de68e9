import FinalityGadget.Config.Load
import FinalityGadget.Proofs.JsonTree
import FinalityGadget.Proofs.Paths

/-!
# Trees of flat configurations

Parameters are put into a tree in ascending order, so a path comes after all paths above it and
nothing that was put into the tree is ever replaced: a parameter either finds another one above it
and collides, or it becomes a leaf beside the others. The tree of a flat configuration therefore
holds exactly its parameters, and its leaves give the configuration back.
-/

namespace FinalityGadget

section Growing

/-- A parameter stands above the path, where the path goes on below. -/
def Path.Blocked (entries : List (String × Json)) (path : String) : Prop :=
  ∃ entry ∈ entries, Path.Above entry.1 path

/-- The leaves of a tree are the given parameters at the places of their paths. -/
structure Json.Holds (tree : Json) (entries : List (String × Json)) : Prop where
  leaf_iff : ∀ segments value, tree.at? segments = some value ∧ ¬ value.IsObject ↔
    ∃ path, (path, value) ∈ entries ∧ Path.segments path = segments
  sorted : tree.Sorted

variable {entries params : List (String × Json)} {tree grown value : Json} {path : String}

theorem Json.holds_emptyObject : (Json.object []).Holds [] where
  leaf_iff segments value := by
    constructor
    · rintro ⟨hplace, hleaf⟩
      cases segments with
      | nil =>
          obtain rfl : Json.object [] = value := by simpa using hplace
          exact absurd trivial hleaf
      | cons _ _ => simp at hplace
    · rintro ⟨_, hmem, -⟩
      simp at hmem
  sorted := Json.sorted_emptyObject

theorem Json.Holds.setPath?_eq_none_iff (hholds : tree.Holds entries) :
    Json.setPath? value (Path.segments path) tree = none ↔ Path.Blocked entries path := by
  rw [Json.setPath?_eq_none_iff]
  constructor
  · rintro ⟨above, place, hbegins, hne, hplace⟩
    obtain ⟨q, hmem, rfl⟩ := (hholds.leaf_iff above place).mp hplace
    exact ⟨(q, place), hmem, hbegins, hne⟩
  · rintro ⟨⟨q, place⟩, hmem, hbegins, hne⟩
    exact ⟨Path.segments q, place, hbegins, hne, (hholds.leaf_iff _ place).mpr ⟨q, hmem, rfl⟩⟩

theorem Json.Holds.setPath? (hholds : tree.Holds entries) (hvalue : ¬ value.IsObject)
    (hafter : ∀ entry ∈ entries, compare entry.1 path = .lt)
    (hset : Json.setPath? value (Path.segments path) tree = some grown) :
    grown.Holds (entries ++ [(path, value)]) where
  sorted := hholds.sorted.setPath? (Json.sorted_of_not_isObject hvalue) hset
  leaf_iff segments leaf := by
    rw [Json.leaf_iff_of_setPath? hvalue hset, hholds.leaf_iff]
    constructor
    · rintro (⟨rfl, rfl⟩ | ⟨⟨q, hmem, rfl⟩, -⟩)
      · exact ⟨path, by simp, rfl⟩
      · exact ⟨q, List.mem_append_left _ hmem, rfl⟩
    · rintro ⟨q, hmem, rfl⟩
      rcases List.mem_append.mp hmem with hbefore | hlast
      · exact .inr ⟨⟨q, hbefore, rfl⟩, Path.not_isPrefix_of_lt (hafter _ hbefore)⟩
      · obtain ⟨rfl, rfl⟩ := Prod.mk.inj (List.mem_singleton.mp hlast)
        exact .inl ⟨rfl, rfl⟩

theorem Path.Blocked.append (hblocked : Blocked entries path) :
    Blocked (entries ++ params) path := by
  obtain ⟨entry, hmem, habove⟩ := hblocked
  exact ⟨entry, List.mem_append_left _ hmem, habove⟩

/-- Only parameters before a path can stand above it. -/
theorem Path.Blocked.of_ascending (hascending : Ascending (entries ++ (path, value) :: params))
    (hblocked : Blocked (entries ++ (path, value) :: params) path) : Blocked entries path := by
  obtain ⟨entry, hmem, habove⟩ := hblocked
  rcases List.mem_append.mp hmem with hbefore | hfrom
  · exact ⟨entry, hbefore, habove⟩
  · have hlater := List.pairwise_cons.mp (List.pairwise_append.mp hascending).2.1
    rcases List.mem_cons.mp hfrom with rfl | hafter
    · simpa using habove.lt
    · exact absurd habove.lt (Std.OrientedCmp.not_lt_of_lt (hlater.1 entry hafter))

/-- Parameters in ascending order grow a tree that holds them, or the first of them that has another
one above it is reported. -/
theorem FlatConfig.grow_spec (hholds : tree.Holds entries)
    (hascending : Ascending (entries ++ params)) (hvalues : ∀ param ∈ params, ¬ param.2.IsObject) :
    match grow params tree with
    | .ok grown =>
      grown.Holds (entries ++ params) ∧ ∀ param ∈ params, ¬ Path.Blocked (entries ++ params) param.1
    | .error path =>
      (∃ param ∈ params, param.1 = path) ∧ Path.Blocked (entries ++ params) path ∧
        ∀ param ∈ params, Path.Blocked (entries ++ params) param.1 →
          (compare path param.1).isLE := by
  induction params generalizing entries tree with
  | nil => simpa [FlatConfig.grow] using hholds
  | cons param params ih =>
      obtain ⟨path, value⟩ := param
      obtain ⟨-, hlater, hbefore⟩ := List.pairwise_append.mp hascending
      rw [FlatConfig.grow]
      cases hset : Json.setPath? value (Path.segments path) tree with
      | none =>
          refine ⟨by simp, (hholds.setPath?_eq_none_iff.mp hset).append, ?_⟩
          intro param hmem _
          rcases List.mem_cons.mp hmem with rfl | hafter
          · simp
          · simp [(List.pairwise_cons.mp hlater).1 param hafter]
      | some grown =>
          have hfree : ¬ Path.Blocked (entries ++ (path, value) :: params) path := by
            intro hblocked
            have hnone : Json.setPath? value (Path.segments path) tree = none :=
              hholds.setPath?_eq_none_iff.mpr (hblocked.of_ascending hascending)
            rw [hset] at hnone
            simp at hnone
          have hgrown := hholds.setPath? (hvalues _ List.mem_cons_self)
            (fun entry hmem => hbefore entry hmem _ List.mem_cons_self) hset
          have hrest := ih hgrown (by simpa using hascending)
            (fun param hmem => hvalues param (List.mem_cons_of_mem _ hmem))
          rw [List.append_assoc, List.singleton_append] at hrest
          dsimp only
          split at hrest
          · refine ⟨hrest.1, ?_⟩
            intro param hmem
            rcases List.mem_cons.mp hmem with rfl | hafter
            · exact hfree
            · exact hrest.2 param hafter
          · obtain ⟨⟨param, hmem, hparam⟩, hblocked, hfirst⟩ := hrest
            refine ⟨⟨param, List.mem_cons_of_mem _ hmem, hparam⟩, hblocked, ?_⟩
            intro param hmem hblocked
            rcases List.mem_cons.mp hmem with rfl | hafter
            · exact absurd hblocked hfree
            · exact hfirst param hafter hblocked

end Growing

namespace FlatConfig

theorem getElem?_ofList (params : List (String × Json)) (path : String) :
    (ofList params)[path]? = lastValue? params path := by
  rw [ofList, getElem?_foldl_insert, Std.ExtTreeMap.getElem?_empty, Option.or_none]

/-- The path belongs to a parameter that has another one above it. -/
def Collides (flat : FlatConfig) (path : String) : Prop :=
  path ∈ flat ∧ ∃ above ∈ flat, Path.Above above path

theorem mem_iff_exists_mem_toList {flat : FlatConfig} {path : String} :
    path ∈ flat ↔ ∃ param ∈ flat.toList, param.1 = path := by
  rw [← Std.ExtTreeMap.mem_keys, ← Std.ExtTreeMap.map_fst_toList_eq_keys, List.mem_map]

theorem blocked_toList_iff {flat : FlatConfig} {path : String} :
    Path.Blocked flat.toList path ↔ ∃ above ∈ flat, Path.Above above path := by
  constructor
  · rintro ⟨param, hmem, habove⟩
    exact ⟨param.1, mem_iff_exists_mem_toList.mpr ⟨param, hmem, rfl⟩, habove⟩
  · rintro ⟨above, hmem, habove⟩
    obtain ⟨param, hparam, rfl⟩ := mem_iff_exists_mem_toList.mp hmem
    exact ⟨param, hparam, habove⟩

theorem tree_spec (flat : FlatConfig)
    (hvalues : ∀ (path : String) (value : Json), flat[path]? = some value → ¬ value.IsObject) :
    match flat.tree with
    | .ok tree => tree.Holds flat.toList ∧ ∀ path, ¬ flat.Collides path
    | .error path => flat.Collides path ∧
        ∀ other, flat.Collides other → (compare path other).isLE := by
  have hparams : ∀ param ∈ flat.toList, ¬ param.2.IsObject := by
    rintro ⟨path, value⟩ hmem
    exact hvalues path value (Std.ExtTreeMap.mem_toList_iff_getElem?_eq_some.mp hmem)
  have hascending : Ascending ([] ++ flat.toList) := Std.ExtTreeMap.ordered_keys_toList
  have hspec := grow_spec Json.holds_emptyObject hascending hparams
  rw [List.nil_append] at hspec
  rw [tree]
  split at hspec
  · refine ⟨hspec.1, ?_⟩
    rintro path ⟨hmem, habove⟩
    obtain ⟨param, hparam, rfl⟩ := mem_iff_exists_mem_toList.mp hmem
    exact hspec.2 param hparam (blocked_toList_iff.mpr habove)
  · refine ⟨⟨mem_iff_exists_mem_toList.mpr hspec.1, blocked_toList_iff.mp hspec.2.1⟩, ?_⟩
    rintro other ⟨hmem, habove⟩
    obtain ⟨param, hparam, rfl⟩ := mem_iff_exists_mem_toList.mp hmem
    exact hspec.2.2 param hparam (blocked_toList_iff.mpr habove)

end FlatConfig

section Holding

variable {tree : Json} {flat : FlatConfig}

theorem Json.Holds.at?_segments (hholds : tree.Holds flat.toList) {path : String} {value : Json}
    (hvalue : flat[path]? = some value) : tree.at? (Path.segments path) = some value := by
  have hmem := Std.ExtTreeMap.mem_toList_iff_getElem?_eq_some.mpr hvalue
  exact ((hholds.leaf_iff _ _).mpr ⟨path, hmem, rfl⟩).1

theorem Json.Holds.exists_path (hholds : tree.Holds flat.toList) {segments : List String}
    {value : Json} (hplace : tree.at? segments = some value) (hleaf : ¬ value.IsObject) :
    ∃ path : String, flat[path]? = some value ∧ Path.segments path = segments := by
  obtain ⟨path, hmem, hsegments⟩ := (hholds.leaf_iff _ _).mp ⟨hplace, hleaf⟩
  exact ⟨path, Std.ExtTreeMap.mem_toList_iff_getElem?_eq_some.mp hmem, hsegments⟩

/-- The parameters that the leaves of a tree stand for. -/
def Json.flatten (tree : Json) : FlatConfig :=
  .ofList (tree.leaves.map fun leaf => (Path.join leaf.1, leaf.2))

theorem Json.Holds.flatten (hholds : tree.Holds flat.toList) : tree.flatten = flat := by
  apply Std.ExtTreeMap.ext_getElem?
  intro path
  rw [Json.flatten, FlatConfig.getElem?_ofList]
  apply lastValue?_eq_of_mem_iff
  intro value
  rw [← Std.ExtTreeMap.mem_toList_iff_getElem?_eq_some, List.mem_map]
  constructor
  · rintro ⟨⟨segments, leaf⟩, hleaf, heq⟩
    obtain ⟨rfl, rfl⟩ := Prod.mk.inj heq
    obtain ⟨q, hmem, rfl⟩ := (hholds.leaf_iff _ _).mp ((Json.mem_leaves_iff hholds.sorted).mp hleaf)
    simpa using hmem
  · intro hmem
    have hplace := (hholds.leaf_iff _ _).mpr ⟨path, hmem, rfl⟩
    exact ⟨(Path.segments path, value), (Json.mem_leaves_iff hholds.sorted).mpr hplace, by simp⟩

end Holding

section Nesting

theorem toList_foldl_insert_below {β : Type} (name : String) (m : Std.ExtTreeMap String β) :
    (m.foldl (fun nested path value => nested.insert (name ++ "." ++ path) value)
        (∅ : Std.ExtTreeMap String β)).toList =
      m.toList.map fun entry => (name ++ "." ++ entry.1, entry.2) := by
  have hascending : Ascending (m.toList.map fun entry => (name ++ "." ++ entry.1, entry.2)) :=
    Std.ExtTreeMap.ordered_keys_toList.map _ fun _ _ h => Path.append_lt_append _ h
  rw [← toList_foldl_insert hascending, Std.ExtTreeMap.foldl_eq_foldl_toList, List.foldl_map]

namespace FlatConfig

/-- The parameters put below a part of the given name. -/
def nest (name : String) (flat : FlatConfig) : FlatConfig :=
  flat.foldl (fun nested path value => nested.insert (name ++ "." ++ path) value) ∅

theorem toList_nest (name : String) (flat : FlatConfig) :
    (flat.nest name).toList = flat.toList.map fun param => (name ++ "." ++ param.1, param.2) :=
  toList_foldl_insert_below name flat

theorem values_nest (name : String) (dump : Dump) :
    (dump.nest name).values = dump.values.nest name := by
  have htoList : (dump.nest name).values.toList = (dump.values.nest name).toList := by
    rw [toList_nest, Dump.values, Std.ExtTreeMap.toList_map, Dump.nest, toList_foldl_insert_below,
      Dump.values, Std.ExtTreeMap.toList_map, List.map_map, List.map_map]
    rfl
  exact Std.ExtTreeMap.ext_toList (List.Perm.of_eq htoList)

variable {name : String}

theorem setPath?_below (value : Json) (segments : List String) (tree : Json) :
    Json.setPath? value (name :: segments) (.object [(name, tree)]) =
      (Json.setPath? value segments tree).map fun tree => .object [(name, tree)] := by
  simp [Json.setPath?, Json.insertField]

theorem setPath?_emptyObject (value : Json) (segments : List String) :
    Json.setPath? value (name :: segments) (.object []) =
      (Json.setPath? value segments (.object [])).map fun tree => .object [(name, tree)] := by
  simp [Json.setPath?, Json.insertField]

theorem grow_below (hname : '.' ∉ name.toList) (params : List (String × Json)) (tree : Json) :
    grow (params.map fun param => (name ++ "." ++ param.1, param.2)) (.object [(name, tree)]) =
      ((grow params tree).map fun tree => .object [(name, tree)]).mapError
        (name ++ "." ++ ·) := by
  induction params generalizing tree with
  | nil => rfl
  | cons param params ih =>
      obtain ⟨path, value⟩ := param
      rw [List.map_cons, grow, grow, Path.segments_below hname, setPath?_below]
      cases Json.setPath? value (Path.segments path) tree with
      | none => rfl
      | some grown => exact ih grown

theorem tree_nest (hname : '.' ∉ name.toList) {flat : FlatConfig} (hflat : flat ≠ ∅) :
    (flat.nest name).tree =
      (flat.tree.map fun tree => .object [(name, tree)]).mapError (name ++ "." ++ ·) := by
  rw [tree, tree, toList_nest]
  cases hparams : flat.toList with
  | nil => exact absurd (Std.ExtTreeMap.toList_eq_nil_iff.mp hparams) hflat
  | cons param params =>
      obtain ⟨path, value⟩ := param
      rw [List.map_cons, grow, grow, Path.segments_below hname, setPath?_emptyObject]
      cases Json.setPath? value (Path.segments path) (.object []) with
      | none => rfl
      | some grown => exact grow_below hname params grown

/-- Whatever is loaded below a name is loaded without it and nested, or collides below it. -/
theorem toTree_nest (hname : '.' ∉ name.toList) {flat : FlatConfig} (hflat : flat ≠ ∅) :
    (∀ tree, flat.toTree = .ok tree → (flat.nest name).toTree = .ok (.object [(name, tree)])) ∧
      ∀ e, flat.toTree = .error e → ∃ path, e = .collision path ∧
        (flat.nest name).toTree = .error (.collision (name ++ "." ++ path)) := by
  rw [toTree, toTree, tree_nest hname hflat]
  cases flat.tree with
  | ok tree =>
      constructor
      · intro grown htree
        cases htree
        rfl
      · intro e he
        cases he
  | error path =>
      constructor
      · intro tree htree
        cases htree
      · intro e he
        cases he
        exact ⟨path, rfl, rfl⟩

end FlatConfig

end Nesting

/-- A flat configuration becomes a tree without losing a parameter. If no value is an object, this
fails just if one path goes on below another, and then reports the first path in the order of the
bytes that does; otherwise every parameter stands where its path leads, and since there are no other
leaves, flattening the tree gives the parameters back. Whatever the values are, nesting some
parameters below a name nests their tree. -/
theorem FlatConfig.toTree_lossless :
    (∀ flat : FlatConfig,
      (∀ (path : String) (value : Json), flat[path]? = some value → ¬ value.IsObject) →
      ((∃ e, flat.toTree = .error e) ↔ ∃ path, flat.Collides path) ∧
      (∀ e, flat.toTree = .error e → ∃ path, e = .collision path ∧ flat.Collides path ∧
        ∀ other, flat.Collides other → Path.bytes path ≤ Path.bytes other) ∧
      ∀ tree, flat.toTree = .ok tree →
        (∀ (path : String) (value : Json), flat[path]? = some value →
          tree.at? (Path.segments path) = some value) ∧
        (∀ segments value, tree.at? segments = some value → ¬ value.IsObject →
          ∃ path : String, flat[path]? = some value ∧ Path.segments path = segments) ∧
        tree.flatten = flat) ∧
    (∀ (flat : FlatConfig) (name : String), flat ≠ ∅ → '.' ∉ name.toList →
      (∀ tree, flat.toTree = .ok tree → (flat.nest name).toTree = .ok (.object [(name, tree)])) ∧
      ∀ e, flat.toTree = .error e → ∃ path, e = .collision path ∧
        (flat.nest name).toTree = .error (.collision (name ++ "." ++ path))) ∧
    ∀ (dump : Dump) (name : String), (dump.nest name).values = dump.values.nest name := by
  refine ⟨?_, fun flat name hflat hname => toTree_nest hname hflat,
    fun dump name => values_nest name dump⟩
  intro flat hvalues
  have hspec := flat.tree_spec hvalues
  rw [toTree]
  cases htree : flat.tree with
  | error path =>
      rw [htree] at hspec
      obtain ⟨hcollides, hleast⟩ := hspec
      refine ⟨⟨fun _ => ⟨path, hcollides⟩, fun _ => ⟨.collision path, rfl⟩⟩, ?_, ?_⟩
      · intro e he
        cases he
        exact ⟨path, rfl, hcollides,
          fun other hother => Path.isLE_compare_iff_bytes_le.mp (hleast other hother)⟩
      · intro tree hok
        cases hok
  | ok tree =>
      rw [htree] at hspec
      obtain ⟨hholds, hfree⟩ := hspec
      refine ⟨⟨?_, fun ⟨path, hcollides⟩ => absurd hcollides (hfree path)⟩, ?_, ?_⟩
      · rintro ⟨e, he⟩
        cases he
      · intro e he
        cases he
      · intro grown hok
        cases hok
        exact ⟨fun _ _ => hholds.at?_segments, fun _ _ => hholds.exists_path, hholds.flatten⟩

/-- A point sorts above some characters, so a path with such a character may stand between a
parameter and the one that collides with it. -/
theorem FlatConfig.toTree_lossless_of_collision :
    let flat := FlatConfig.ofList
      [("slot", .integer 5), ("slot-0", .integer 1), ("slot.start", .integer 4)]
    (∀ (path : String) (value : Json), flat[path]? = some value → ¬ value.IsObject) ∧
      flat ≠ ∅ ∧ '.' ∉ "chain".toList ∧
      flat.toTree = .error (.collision "slot.start") ∧ flat.Collides "slot.start" ∧
      (∀ other, flat.Collides other → Path.bytes "slot.start" ≤ Path.bytes other) ∧
      (flat.nest "chain").toTree = .error (.collision ("chain" ++ "." ++ "slot.start")) := by
  intro flat
  have hvalues : ∀ (path : String) (value : Json), flat[path]? = some value → ¬ value.IsObject := by
    intro path value hvalue
    have hmem := mem_of_lastValue? ((FlatConfig.getElem?_ofList _ _).symm.trans hvalue)
    simp only [List.mem_cons, Prod.mk.injEq, List.not_mem_nil, or_false] at hmem
    rcases hmem with ⟨-, rfl⟩ | ⟨-, rfl⟩ | ⟨-, rfl⟩ <;> exact not_false
  have hflat : flat ≠ ∅ := by simp [flat, FlatConfig.ofList]
  have hname : '.' ∉ "chain".toList := by decide
  have herror : flat.toTree = .error (.collision "slot.start") := rfl
  obtain ⟨hlossless, hnest, -⟩ := FlatConfig.toTree_lossless
  obtain ⟨path, hpath, hcollides, hleast⟩ := (hlossless flat hvalues).2.1 _ herror
  cases hpath
  obtain ⟨below, hbelow, hnested⟩ := (hnest flat "chain" hflat hname).2 _ herror
  cases hbelow
  exact ⟨hvalues, hflat, hname, herror, hcollides, hleast, hnested⟩

end FinalityGadget
