import FinalityGadget.Gadget
import FinalityGadget.Proofs.ConfigTree
import FinalityGadget.Proofs.Round

/-!
# Dumps of configurations

A configuration is written as a dump of parameters with dotted paths and as a JSON value, and it is
judged when it is loaded and when a gadget is set up with it. Both pairs agree: the tree of the
dumped values is the JSON value, below whatever names the dump is nested, and what is loaded from it
is valid just if a gadget accepts the configuration. Only the part of the block time below a second
is not written.
-/

namespace FinalityGadget

section Nesting

theorem FlatConfig.nest_ne_empty {flat : FlatConfig} (hflat : flat ≠ ∅) (name : String) :
    flat.nest name ≠ ∅ := by
  rw [Ne, ← Std.ExtTreeMap.toList_eq_nil_iff, FlatConfig.toList_nest, List.map_eq_nil_iff,
    Std.ExtTreeMap.toList_eq_nil_iff]
  exact hflat

theorem Dump.toTree_foldl_nest {names : List String} (hnames : ∀ name ∈ names, '.' ∉ name.toList)
    {dump : Dump} (hdump : dump.values ≠ ∅) {tree : Json} (htree : dump.values.toTree = .ok tree) :
    (names.foldl (fun dump name => dump.nest name) dump).values.toTree =
      .ok (names.foldl (fun tree name => .object [(name, tree)]) tree) := by
  induction names generalizing dump tree with
  | nil => exact htree
  | cons name names ih =>
      rw [List.foldl_cons, List.foldl_cons]
      have hname := hnames name List.mem_cons_self
      apply ih (fun other hother => hnames other (List.mem_cons_of_mem _ hother))
      · rw [FlatConfig.values_nest]
        exact FlatConfig.nest_ne_empty hdump name
      · rw [FlatConfig.values_nest]
        exact (FlatConfig.toTree_nest hname hdump).1 tree htree

end Nesting

section Fields

theorem SlotConfig.toJson_eq (c : SlotConfig) :
    c.toJson =
      .object [("block_time", .ofWord c.blockTime.seconds),
        ("genesis_timestamp", .ofWord c.genesis)] := by
  cbv

theorem Config.toJson_eq (c : Config) :
    c.toJson =
      .object [("genesis_height", .ofWord c.genesis),
        ("number_of_validators", .ofWord c.validators), ("slots", c.slots.toJson)] := by
  cbv

theorem Config.toList_values_dump (c : Config) :
    c.dump.values.toList =
      [("genesis_height", .ofWord c.genesis), ("number_of_validators", .ofWord c.validators),
        ("slots.block_time", .ofWord c.slots.blockTime.seconds),
        ("slots.genesis_timestamp", .ofWord c.slots.genesis)] := by
  cbv

theorem Config.toTree_values_dump (c : Config) : c.dump.values.toTree = .ok c.toJson := by
  rw [FlatConfig.toTree, FlatConfig.tree, Config.toList_values_dump, Config.toJson_eq,
    SlotConfig.toJson_eq]
  cbv

end Fields

section Reading

/-- The slots with the block time cut off to whole seconds. -/
def SlotConfig.inSeconds (c : SlotConfig) : SlotConfig :=
  { c with blockTime := .ofSeconds c.blockTime.seconds }

/-- The configuration with the block time cut off to whole seconds. -/
def Config.inSeconds (c : Config) : Config := { c with slots := c.slots.inSeconds }

@[simp] theorem Json.readWord_ofWord (w : Word) : Json.readWord (.ofWord w) = .ok w := by
  have hle := Word.toNat_le w
  have hrange : 0 ≤ (w.toNat : Int) ∧ (w.toNat : Int) ≤ Word.maxNat := by omega
  rw [Json.readWord, Json.ofWord, Json.readUnsigned, if_pos hrange]
  simp [bind, Except.bind, pure, Except.pure]

theorem SlotConfig.ofJson_toJson (c : SlotConfig) :
    SlotConfig.ofJson c.toJson = .ok c.inSeconds := by
  rw [SlotConfig.toJson_eq, SlotConfig.ofJson]
  simp [SlotConfig.reader, Json.RecordReader.read, Json.RecordReader.check,
    Json.RecordReader.field, Json.RecordReader.pure, List.lookup_cons, List.lookup_nil, bind,
    Except.bind, pure, Except.pure, Except.map, SlotConfig.inSeconds]

theorem Config.ofJson_toJson (c : Config) : Config.ofJson c.toJson = .ok c.inSeconds := by
  rw [Config.toJson_eq, Config.ofJson]
  simp [Config.reader, Json.RecordReader.read, Json.RecordReader.check,
    Json.RecordReader.field, Json.RecordReader.pure, List.lookup_cons, List.lookup_nil, bind,
    Except.bind, pure, Except.pure, Except.map, SlotConfig.ofJson_toJson, Config.inSeconds]

theorem Config.load_values_dump (c : Config) : Config.load c.dump.values = .ok c.inSeconds := by
  rw [Config.load, FlatConfig.load, Config.toTree_values_dump]
  exact congrArg (Except.mapError LoadError.unreadable) c.ofJson_toJson

end Reading

section Validity

/-- There is a validator, and a slot lasts at least a second. -/
def Config.IsValid (c : Config) : Prop := 1 ≤ c.validators ∧ 1 ≤ c.slots.blockTime.seconds

theorem Word.one_le_iff_pos {w : Word} : 1 ≤ w ↔ 0 < w := by
  rw [UInt64.le_iff_toNat_le, UInt64.lt_iff_toNat_lt]
  exact Nat.succ_le_iff

theorem SlotConfig.violations_eq_nil_iff (c : SlotConfig) :
    c.violations = [] ↔ 1 ≤ c.blockTime.seconds := by
  rw [SlotConfig.violations, Duration.violation?, Word.one_le_iff_pos, UInt64.pos_iff_ne_zero]
  by_cases hzero : c.blockTime.seconds = 0 <;> simp [hzero]

theorem Config.violations_isEmpty_iff (c : Config) : c.violations.isEmpty ↔ c.IsValid := by
  rw [Config.violations, Config.IsValid, List.isEmpty_iff, List.append_eq_nil_iff,
    List.map_eq_nil_iff, SlotConfig.violations_eq_nil_iff]
  by_cases hvalidators : c.validators < 1
  · simp [hvalidators]
  · simp [hvalidators, UInt64.not_lt.mp hvalidators]

theorem Config.loadValid_eq_ok_iff {flat : FlatConfig} {c : Config} :
    Config.loadValid flat = .ok c ↔ Config.load flat = .ok c ∧ c.IsValid := by
  rw [Config.loadValid, bind_eq_ok_iff]
  constructor
  · rintro ⟨loaded, hload, hvalid⟩
    split at hvalid
    next hviolations =>
      obtain rfl : loaded = c := Except.ok.inj hvalid
      exact ⟨hload, loaded.violations_isEmpty_iff.mp hviolations⟩
    next => cases hvalid
  · rintro ⟨hload, hvalid⟩
    exact ⟨c, hload, if_pos (c.violations_isEmpty_iff.mpr hvalid)⟩

/-- What is loaded is as valid as what was dumped: the part of the block time that is cut off does
not count. -/
theorem Config.loadValid_values_dump_iff (c : Config) :
    (∃ loaded, Config.loadValid c.dump.values = .ok loaded) ↔ c.IsValid := by
  constructor
  · rintro ⟨loaded, hloaded⟩
    obtain ⟨hload, hvalid⟩ := Config.loadValid_eq_ok_iff.mp hloaded
    rw [Config.load_values_dump] at hload
    cases hload
    exact hvalid
  · intro hvalid
    exact ⟨_, Config.loadValid_eq_ok_iff.mpr ⟨c.load_values_dump, hvalid⟩⟩

theorem SlotConfig.exists_toSlots_iff (c : SlotConfig) :
    (∃ slots, c.toSlots = .ok slots) ↔ 1 ≤ c.blockTime.seconds := by
  rw [SlotConfig.toSlots, Slots.ofDuration?, Word.one_le_iff_pos]
  by_cases hpos : 0 < c.blockTime.seconds <;> simp [hpos]

theorem Finality.exists_load_empty_iff (validators : Word) (genesis : Height) :
    (∃ f, Finality.load validators genesis Database.empty.view = .ok f) ↔ 1 ≤ validators := by
  rw [Word.one_le_iff_pos]
  constructor
  · rintro ⟨f, hload⟩
    obtain ⟨fresh, hstart, -⟩ := bind_eq_ok_iff.mp hload
    by_contra hzero
    rw [Finality.start, dif_neg hzero] at hstart
    cases hstart
  · intro hpos
    have hempty : ∀ key, Database.empty.view key = .ok none := by
      intro key
      simp [Database.view, Database.empty]
    exact ⟨_, Finality.load_of_records hpos (Ledger.load_of_none (hempty _))
      (Finality.marker_of_none (hempty _))⟩

theorem Config.exists_init_empty_iff (c : Config) (registry : Registry) :
    (∃ gadget, Gadget.init c registry Database.empty.view = .ok gadget) ↔ c.IsValid := by
  rw [Config.IsValid, ← Finality.exists_load_empty_iff c.validators c.genesis,
    ← SlotConfig.exists_toSlots_iff]
  constructor
  · rintro ⟨gadget, hinit⟩
    obtain ⟨f, hload, hinit⟩ := bind_eq_ok_iff.mp hinit
    obtain ⟨slots, hslots, -⟩ := bind_eq_ok_iff.mp hinit
    exact ⟨⟨f, hload⟩, slots, hslots⟩
  · rintro ⟨⟨f, hload⟩, slots, hslots⟩
    exact ⟨_, bind_eq_ok_iff.mpr ⟨f, hload, bind_eq_ok_iff.mpr ⟨slots, hslots, rfl⟩⟩⟩

end Validity

/-- The dump of a configuration and its JSON value agree below any names, the last one outermost.
Loading the dump gives the configuration back apart from the part of the block time below a second,
and it is valid just if a gadget on an empty storage accepts the configuration, which is to say that
there is a validator and that a slot lasts at least a second. -/
theorem Config.dump_faithful (c : Config) :
    (∀ names : List String, (∀ name ∈ names, '.' ∉ name.toList) →
      (names.foldl (fun dump name => dump.nest name) c.dump).values.toTree =
        .ok (names.foldl (fun tree name => .object [(name, tree)]) c.toJson)) ∧
      Config.load c.dump.values = .ok
        { c with slots := { c.slots with blockTime := .ofSeconds c.slots.blockTime.seconds } } ∧
      ((∃ loaded, Config.loadValid c.dump.values = .ok loaded) ↔
        1 ≤ c.validators ∧ 1 ≤ c.slots.blockTime.seconds) ∧
      ∀ registry, (∃ gadget, Gadget.init c registry Database.empty.view = .ok gadget) ↔
        1 ≤ c.validators ∧ 1 ≤ c.slots.blockTime.seconds := by
  have hvalues : c.dump.values ≠ ∅ := by
    rw [Ne, ← Std.ExtTreeMap.toList_eq_nil_iff, c.toList_values_dump]
    exact List.cons_ne_nil _ _
  exact ⟨fun names hnames => Dump.toTree_foldl_nest hnames hvalues c.toTree_values_dump,
    c.load_values_dump, c.loadValid_values_dump_iff, c.exists_init_empty_iff⟩

/-- A block time of a second and a half, and two names of which one is empty. -/
theorem Config.dump_faithful_of_names :
    let c : Config := ⟨4, 7, 0, 1, 500000000⟩
    (∀ name ∈ ["", "node"], '.' ∉ name.toList) ∧
      (["", "node"].foldl (fun dump name => dump.nest name) c.dump).values.toTree =
        .ok (.object [("node", .object [("", c.toJson)])]) ∧
      Config.load c.dump.values = .ok ⟨4, 7, 0, 1, 0⟩ ∧
      ∃ gadget, Gadget.init c (.fixed []) Database.empty.view = .ok gadget := by
  have hnames : ∀ name ∈ ["", "node"], '.' ∉ name.toList := by decide
  obtain ⟨htree, hload, -, hinit⟩ := Config.dump_faithful ⟨4, 7, 0, 1, 500000000⟩
  exact ⟨hnames, htree ["", "node"] hnames, hload, (hinit (.fixed [])).mpr (by decide)⟩

end FinalityGadget
