import FinalityGadget.Config.Load
import FinalityGadget.Proofs.Entries
import FinalityGadget.Proofs.JsonText

/-!
# Configuration files read back as written

The file of a dump holds a line for every path and field. The reader takes the fields of a parameter
in the order in which they are written, and puts one parameter after the other into the dump. As
long as the values of the parameters are scalars, it ends with the dump that was written.
-/

namespace FinalityGadget

/-- The text of a field, in front of other text. -/
def Json.fieldText (name : String) (value rest : List Char) : List Char :=
  Json.quoted name ++ ':' :: ' ' :: (value ++ rest)

namespace ConfigFile

open Json (skipBlanks quoted fieldText newLine prettyChars prettyFields joined)

variable {text rest more : List Char}

/-! ## The parts of a parameter -/

theorem readName_quoted {name : String} (htext : skipBlanks text = quoted name ++ rest) :
    readName text = .ok (name, rest) := by
  rw [readName, htext, Json.quoted_append]
  simp only [Json.readString_flatMap_escape]
  rfl

theorem readText_quoted {s : String} (htext : skipBlanks text = quoted s ++ rest)
    (expected : String) : readText expected text = .ok (s, rest) := by
  rw [readText, htext, Json.quoted_append]
  simp only [Json.readString_flatMap_escape]
  rfl

theorem readMark_colon (rest : List Char) : readMark ':' (':' :: rest) = .ok rest := rfl

theorem readPrivacy_quoted {privacy : Privacy}
    (htext : skipBlanks text = quoted privacy.name ++ rest) :
    readPrivacy text = .ok (privacy, rest) := by
  rw [readPrivacy, htext, Json.quoted_append]
  simp only [Json.readString_flatMap_escape]
  cases privacy <;> rfl

section Fields

variable {fields : Fields}

theorem readField_description (hnone : fields.description = none) (description : String) :
    readField "description" fields (':' :: ' ' :: (quoted description ++ rest)) =
      .ok ({ fields with description := some description }, rest) := by
  have htext : skipBlanks (' ' :: (quoted description ++ rest)) = quoted description ++ rest := by
    rw [Json.skipBlanks_space, Json.skipBlanks_quoted]
  rw [readField, if_pos rfl, hnone, readMark_colon]
  simp only [Option.isSome_none, Bool.false_eq_true, if_false, bind, Except.bind,
    readText_quoted htext]
  rfl

theorem readField_privacy (hnone : fields.privacy = none) (privacy : Privacy) :
    readField "privacy" fields (':' :: ' ' :: (quoted privacy.name ++ rest)) =
      .ok ({ fields with privacy := some privacy }, rest) := by
  have htext : skipBlanks (' ' :: (quoted privacy.name ++ rest)) = quoted privacy.name ++ rest := by
    rw [Json.skipBlanks_space, Json.skipBlanks_quoted]
  rw [readField, if_neg (by decide), if_pos rfl, hnone, readMark_colon]
  simp only [Option.isSome_none, Bool.false_eq_true, if_false, bind, Except.bind,
    readPrivacy_quoted htext]
  rfl

theorem readField_value (hnone : fields.value = none) {value : Json} (hvalue : value.IsScalar)
    (level : Nat) (hrest : Json.EndsNumber rest) :
    readField "value" fields (':' :: ' ' :: (prettyChars level value ++ rest)) =
      .ok ({ fields with value := some value }, rest) := by
  have hread : Json.read valueDepth (' ' :: (prettyChars level value ++ rest)) =
      .ok (value, rest) := by
    rw [Json.read, Json.readValue_congr (Json.skipBlanks_space _)]
    exact Json.readValue_scalar hvalue _ _ level hrest
  rw [readField, if_neg (by decide), if_neg (by decide), readMark_colon]
  simp only [bind, Except.bind, syntactic, hread, Except.mapError, hnone, Option.isNone_none,
    and_self, if_true]
  rfl

theorem readFields_comma {name : String} {value : List Char} {after : Fields}
    (htext : skipBlanks text = fieldText name value rest)
    (hfield : readField name fields (':' :: ' ' :: (value ++ rest)) = .ok (after, rest))
    (hrest : skipBlanks rest = ',' :: more) (fuel : Nat) :
    readFields (fuel + 1) fields text = readFields fuel after more := by
  rw [readFields, readName_quoted htext]
  simp only [bind, Except.bind, hfield, hrest]

theorem readFields_brace {name : String} {value : List Char} {after : Fields} {param : Param}
    (htext : skipBlanks text = fieldText name value rest)
    (hfield : readField name fields (':' :: ' ' :: (value ++ rest)) = .ok (after, rest))
    (hrest : skipBlanks rest = '}' :: more) (hparam : after.param = .ok param) (fuel : Nat) :
    readFields (fuel + 1) fields text = .ok (param, more) := by
  rw [readFields, readName_quoted htext]
  simp only [bind, Except.bind, hfield, hrest, hparam]
  rfl

end Fields

/-! ## Parameters -/

theorem skipBlanks_fieldText (name : String) (value rest : List Char) :
    skipBlanks (fieldText name value rest) = fieldText name value rest := by
  rw [fieldText, Json.skipBlanks_quoted]

theorem prettyChars_param (param : Param) (rest : List Char) :
    prettyChars 1 param.toJson ++ rest =
      '{' :: (newLine 2 ++ fieldText "description" (quoted param.description)
        (',' :: (newLine 2 ++ fieldText "value" (prettyChars 2 param.value)
          (',' :: (newLine 2 ++ fieldText "privacy" (quoted param.privacy.name)
            (newLine 1 ++ '}' :: rest)))))) := by
  simp [Param.toJson, prettyChars, prettyFields, Json.block, joined, fieldText]

theorem readParam_brace {name : String} {value : List Char} (htext : skipBlanks text = '{' :: more)
    (hmore : skipBlanks more = fieldText name value rest) :
    readParam text =
      readFields (fieldText name value rest).length Fields.none (fieldText name value rest) := by
  rw [readParam, htext]
  simp only [hmore]
  rw [fieldText, Json.quoted_append]
  rfl

theorem readParam_pretty {param : Param} (hvalue : param.value.IsScalar)
    (htext : skipBlanks text = prettyChars 1 param.toJson ++ rest) :
    readParam text = .ok (param, rest) := by
  rw [prettyChars_param] at htext
  have hline : ∀ level name value rest,
      skipBlanks (newLine level ++ fieldText name value rest) = fieldText name value rest :=
    fun level name value rest => by rw [Json.skipBlanks_newLine, skipBlanks_fieldText]
  have hcomma : ∀ text, skipBlanks (',' :: text) = ',' :: text := Json.skipBlanks_cons rfl
  have hbrace : skipBlanks (newLine 1 ++ '}' :: rest) = '}' :: rest := by
    rw [Json.skipBlanks_newLine, Json.skipBlanks_cons rfl]
  have hends : ∀ text, Json.EndsNumber (',' :: text) := by
    rintro text c ⟨⟩
    decide
  rw [readParam_brace htext (hline _ _ _ _)]
  -- The text is long enough for a turn of the reader for each of the three fields.
  generalize hlength : (fieldText "description" _ _).length = length
  obtain ⟨fuel, rfl⟩ : ∃ fuel, length = fuel + 3 := by
    refine ⟨length - 3, ?_⟩
    simp only [fieldText, quoted, List.length_append, List.length_cons] at hlength
    omega
  rw [readFields_comma (skipBlanks_fieldText _ _ _) (readField_description rfl _) (hcomma _),
    readFields_comma (hline _ _ _ _) (readField_value rfl hvalue 2 (hends _)) (hcomma _)]
  exact readFields_brace (hline _ _ _ _) (readField_privacy rfl _) hbrace rfl fuel

theorem skipBlanks_param (param : Param) (rest : List Char) :
    skipBlanks (prettyChars 1 param.toJson ++ rest) = prettyChars 1 param.toJson ++ rest := by
  rw [prettyChars_param, Json.skipBlanks_cons rfl]

/-! ## Dumps -/

section Dumps

variable {path : String} {param : Param}

theorem readParams_comma (hvalue : param.value.IsScalar)
    (htext : skipBlanks text = fieldText path (prettyChars 1 param.toJson) rest)
    (hrest : skipBlanks rest = ',' :: more) (fuel : Nat) (dump : Dump) :
    readParams (fuel + 1) dump text = readParams fuel (dump.insert path param) more := by
  have hparam := (Json.skipBlanks_space _).trans (skipBlanks_param param rest)
  rw [readParams, readName_quoted htext]
  simp only [bind, Except.bind, readMark_colon, readParam_pretty hvalue hparam, hrest]

theorem readParams_brace (hvalue : param.value.IsScalar)
    (htext : skipBlanks text = fieldText path (prettyChars 1 param.toJson) rest)
    (hrest : skipBlanks rest = '}' :: more) (fuel : Nat) (dump : Dump) :
    readParams (fuel + 1) dump text = .ok (dump.insert path param, more) := by
  have hparam := (Json.skipBlanks_space _).trans (skipBlanks_param param rest)
  rw [readParams, readName_quoted htext]
  simp only [bind, Except.bind, readMark_colon, readParam_pretty hvalue hparam, hrest]
  rfl

/-- The text of a parameter and those after it, in front of other text. -/
def paramsText (rest : List Char) : String × Param → List (String × Param) → List Char
  | (path, param), [] => fieldText path (prettyChars 1 param.toJson) (newLine 0 ++ '}' :: rest)
  | (path, param), next :: entries =>
    fieldText path (prettyChars 1 param.toJson) (',' :: (newLine 1 ++ paramsText rest next entries))

theorem skipBlanks_paramsText (rest : List Char) (entry : String × Param)
    (entries : List (String × Param)) :
    skipBlanks (paramsText rest entry entries) = paramsText rest entry entries := by
  cases entries <;> exact skipBlanks_fieldText _ _ _

theorem readParams_paramsText {entry : String × Param} {entries : List (String × Param)}
    (hvalues : ∀ e ∈ entry :: entries, e.2.value.IsScalar) {fuel : Nat}
    (hfuel : entries.length < fuel) (dump : Dump)
    (htext : skipBlanks text = paramsText rest entry entries) :
    readParams fuel dump text =
      .ok ((entry :: entries).foldl (fun dump e => dump.insert e.1 e.2) dump, rest) := by
  obtain ⟨fuel, rfl⟩ : ∃ n, fuel = n + 1 := ⟨fuel - 1, by omega⟩
  have hvalue := hvalues entry List.mem_cons_self
  induction entries generalizing entry fuel dump text with
  | nil =>
      apply readParams_brace hvalue htext
      rw [Json.skipBlanks_newLine, Json.skipBlanks_cons rfl]
  | cons next entries ih =>
      obtain ⟨fuel, rfl⟩ : ∃ n, fuel = n + 1 := ⟨fuel - 1, by simp at hfuel; omega⟩
      rw [readParams_comma hvalue htext (Json.skipBlanks_cons rfl _), List.foldl_cons]
      apply ih
      · exact fun e he => hvalues e (List.mem_cons_of_mem _ he)
      · rw [Json.skipBlanks_newLine, skipBlanks_paramsText]
      · simpa using hfuel
      · exact hvalues next (by simp)

theorem joined_eq_paramsText (rest : List Char) (entry : String × Param)
    (entries : List (String × Param)) :
    joined (',' :: newLine 1)
        (prettyFields 1 ((entry :: entries).map fun e => (e.1, e.2.toJson))) ++
        (newLine 0 ++ '}' :: rest) =
      paramsText rest entry entries := by
  induction entries generalizing entry with
  | nil => simp [prettyFields, joined, paramsText, fieldText]
  | cons next entries ih =>
      rw [paramsText, ← ih next]
      simp [prettyFields, joined, fieldText]

theorem prettyChars_dump {dump : Dump} {entry : String × Param} {entries : List (String × Param)}
    (hlist : dump.toList = entry :: entries) :
    prettyChars 0 dump.toJson = '{' :: (newLine 1 ++ paramsText [] entry entries) := by
  have hjson : dump.toJson = .object ((entry :: entries).map fun e => (e.1, e.2.toJson)) := by
    rw [Dump.toJson, hlist]
  have hparts : (prettyFields 1 ((entry :: entries).map fun e => (e.1, e.2.toJson))).isEmpty =
      false := by
    simp [prettyFields]
  rw [hjson, prettyChars, Json.block, hparts, ← joined_eq_paramsText]
  simp

theorem length_lt_paramsText (rest : List Char) (entry : String × Param)
    (entries : List (String × Param)) :
    entries.length < (paramsText rest entry entries).length := by
  induction entries generalizing entry with
  | nil =>
      simp only [paramsText, fieldText, List.length_append, List.length_cons, List.length_nil]
      omega
  | cons next entries ih =>
      have hnext := ih next
      simp only [paramsText, fieldText, List.length_append, List.length_cons]
      omega

theorem readDump_pretty {dump : Dump} (hvalues : ∀ entry ∈ dump.toList, entry.2.value.IsScalar) :
    readDump (prettyChars 0 dump.toJson) = .ok (dump, []) := by
  cases hlist : dump.toList with
  | nil =>
      have hempty : dump = ∅ := Std.ExtTreeMap.toList_eq_nil_iff.mp hlist
      have htext : prettyChars 0 dump.toJson = ['{', '}'] := by
        simp [Dump.toJson, hlist, prettyChars, prettyFields, Json.block]
      rw [htext, hempty]
      rfl
  | cons entry entries =>
      have hdump : (entry :: entries).foldl (fun dump e => dump.insert e.1 e.2) ∅ = dump := by
        rw [← hlist, foldl_insert_toList]
      have hread : readParams (paramsText [] entry entries).length ∅ (paramsText [] entry entries) =
          .ok (dump, []) := by
        rw [readParams_paramsText (hlist ▸ hvalues) (length_lt_paramsText _ _ _) ∅
          (skipBlanks_paramsText _ _ _), hdump]
      obtain ⟨more, hmore⟩ : ∃ more, paramsText [] entry entries = '"' :: more := by
        cases entries <;> exact ⟨_, Json.quoted_append _ _⟩
      rw [prettyChars_dump hlist, readDump, Json.skipBlanks_cons rfl]
      simp only [Json.skipBlanks_newLine, skipBlanks_paramsText]
      rw [hmore] at hread ⊢
      exact hread

end Dumps

end ConfigFile

/-- A dump of scalars is read back from the file that is written for it, and so are its values: at
every path the file holds the value that the dump holds, and at no other path a value. -/
theorem Dump.file_faithful {dump : Dump}
    (hvalues : ∀ (path : String) (param : Param), dump[path]? = some param →
      param.value.IsScalar) :
    Dump.ofText dump.text = .ok dump ∧
      ∃ flat, FlatConfig.ofFile (some dump.text) = .ok flat ∧ flat = dump.values ∧
        flat.toList = dump.toList.map fun entry => (entry.1, entry.2.value) := by
  have hentries : ∀ entry ∈ dump.toList, entry.2.value.IsScalar := fun entry hentry =>
    hvalues entry.1 entry.2 (Std.ExtTreeMap.mem_toList_iff_getElem?_eq_some.mp hentry)
  have hread : Dump.ofText dump.text = .ok dump := by
    rw [Dump.ofText, Dump.text, Json.pretty, String.toList_ofList,
      ConfigFile.readDump_pretty hentries]
    rfl
  refine ⟨hread, dump.values, ?_, rfl, Std.ExtTreeMap.toList_map⟩
  simp only [FlatConfig.ofFile, hread]

/-- Quotes, backslashes and line breaks in a path, a description that is a control character, the
text of a null, and the least integer. -/
theorem Dump.file_faithful_of_escapes :
    let dump : Dump :=
      (((∅ : Dump).insert "" ⟨"\x01", .null, .secret⟩).insert "a\"b\\.\n"
        ⟨"ü", .string "null", .shared⟩).insert "least" ⟨"", .integer Json.minInteger, .shared⟩
    (∀ (path : String) (param : Param), dump[path]? = some param → param.value.IsScalar) ∧
      Dump.ofText dump.text = .ok dump ∧
      ∃ flat, FlatConfig.ofFile (some dump.text) = .ok flat ∧ flat = dump.values ∧
        flat.toList =
          [("", .null), ("a\"b\\.\n", .string "null"), ("least", .integer Json.minInteger)] := by
  intro dump
  have hvalues : ∀ (path : String) (param : Param), dump[path]? = some param →
      param.value.IsScalar := by
    intro path param hparam
    simp only [dump, Std.ExtTreeMap.getElem?_insert, Std.ExtTreeMap.getElem?_empty] at hparam
    split at hparam
    · obtain rfl := Option.some.inj hparam
      exact ⟨Int.le_refl _, by decide⟩
    · split at hparam
      · obtain rfl := Option.some.inj hparam
        trivial
      · split at hparam
        · obtain rfl := Option.some.inj hparam
          trivial
        · cases hparam
  obtain ⟨hread, flat, hflat, heq, hlist⟩ := Dump.file_faithful hvalues
  refine ⟨hvalues, hread, flat, hflat, heq, ?_⟩
  rw [hlist]
  rfl

end FinalityGadget
