import FinalityGadget.Config.Param
import FinalityGadget.Json.Printer
import FinalityGadget.Json.Reader

/-!
# Configuration files

A file holds the JSON object of a dump. It is read in the order of its text, and the first fault
ends the reading: text that is not JSON, or JSON that is not a dump. A parameter needs a
description, a privacy and a value; other fields are passed over. Of several values of a parameter
the first counts, of several parameters at a path the last.
-/

namespace FinalityGadget

/-- The text of a configuration file. -/
def Dump.text (dump : Dump) : String := dump.toJson.pretty

/-- What is wrong with the text of a file. -/
inductive FileError
  | syntaxFault (e : Json.SyntaxError)
  | readFault (e : Json.ReadError)

namespace ConfigFile

open Json (skipBlanks)

/-- A reader of the text at hand, with the text that it leaves. -/
abbrev Reader (α : Type) := List Char → Except FileError (α × List Char)

/-- A step that can only fail for its syntax. -/
def syntactic {α : Type} (r : Except Json.SyntaxError α) : Except FileError α :=
  r.mapError .syntaxFault

/-- What the next value is, read no further than it takes to tell. -/
def nextFound : List Char → Except Json.SyntaxError Json.Found
  | [] => .error .incomplete
  | '[' :: _ => .ok .sequence
  | '{' :: _ => .ok .map
  | text => do
    let (value, _) ← Json.read 0 text
    return value.found

/-- Turns down the next value. -/
def unexpected {α : Type} (expected : String) (text : List Char) : Except FileError α := do
  let found ← syntactic (nextFound text)
  .error (.readFault (.invalidType found expected))

/-- Reads a string where one is expected. -/
def readText (expected : String) : Reader String := fun text =>
  match skipBlanks text with
  | '"' :: text => syntactic (Json.readString text)
  | text => unexpected expected text

/-- Reads the name of a field of an object, which only a string can be. -/
def readName : Reader String := fun text =>
  match skipBlanks text with
  | '"' :: text => syntactic (Json.readString text)
  | [] => .error (.syntaxFault .incomplete)
  | _ => .error (.syntaxFault .malformed)

/-- Reads a character behind blanks. -/
def readMark (mark : Char) (text : List Char) : Except FileError (List Char) :=
  syntactic (Json.expect [mark] (skipBlanks text))

def privacyNamed (name : String) : Except FileError Privacy :=
  match Privacy.ofName? name with
  | some privacy => .ok privacy
  | none => .error (.readFault (.unknownVariant name Privacy.names))

/-- Reads a privacy: its name, or an object with its name and no value. -/
def readPrivacy : Reader Privacy := fun text =>
  match skipBlanks text with
  | '"' :: text => do
    let (name, text) ← syntactic (Json.readString text)
    return (← privacyNamed name, text)
  | '{' :: text => do
    let (name, text) ← readName text
    let privacy ← privacyNamed name
    let text ← readMark ':' text
    match skipBlanks text with
    | 'n' :: text => do
      let text ← syntactic (Json.expect "ull".toList text)
      return (privacy, ← readMark '}' text)
    | text => unexpected "unit" text
  | [] => .error (.syntaxFault .incomplete)
  | _ => .error (.syntaxFault .malformed)

/-- The fields of a parameter that were read so far. -/
structure Fields where
  description : Option String
  privacy : Option Privacy
  value : Option Json

namespace Fields

def none : Fields := ⟨.none, .none, .none⟩

/-- The parameter that the fields make up. -/
def param (f : Fields) : Except FileError Param :=
  match f.description, f.privacy, f.value with
  | .none, _, _ => .error (.readFault (.missingField "description"))
  | _, .none, _ => .error (.readFault (.missingField "privacy"))
  | _, _, .none => .error (.readFault (.missingVariant "SerializedContent"))
  | some description, some privacy, some value => .ok ⟨description, value, privacy⟩

end Fields

/-- The depth to which the value of a parameter may be nested, inside the two objects around it. -/
def valueDepth : Nat := Json.maxDepth - 2

/-- Reads the value of a field behind its name. -/
def readField (name : String) (fields : Fields) : Reader Fields := fun text =>
  if name = "description" then
    if fields.description.isSome then .error (.readFault (.duplicateField name))
    else do
      let (description, text) ← readText "a string" (← readMark ':' text)
      return ({ fields with description }, text)
  else if name = "privacy" then
    if fields.privacy.isSome then .error (.readFault (.duplicateField name))
    else do
      let (privacy, text) ← readPrivacy (← readMark ':' text)
      return ({ fields with privacy }, text)
  else do
    let (value, text) ← syntactic (Json.read valueDepth (← readMark ':' text))
    if name = "value" ∧ fields.value.isNone then return ({ fields with value }, text)
    return (fields, text)

/-- Reads the remaining fields of a parameter. -/
def readFields : (fuel : Nat) → Fields → Reader Param
  | 0, _, _ => .error (.syntaxFault .incomplete)
  | fuel + 1, fields, text => do
    let (name, text) ← readName text
    let (fields, text) ← readField name fields text
    match skipBlanks text with
    | ',' :: text => readFields fuel fields text
    | '}' :: text => return (← fields.param, text)
    | [] => .error (.syntaxFault .incomplete)
    | _ => .error (.syntaxFault .malformed)

def readParam : Reader Param := fun text =>
  match skipBlanks text with
  | '{' :: text =>
    match skipBlanks text with
    | '}' :: text => do return (← Fields.none.param, text)
    | text => readFields text.length Fields.none text
  | text => unexpected "struct SerializedParam" text

/-- Reads the remaining parameters of a dump. -/
def readParams : (fuel : Nat) → Dump → Reader Dump
  | 0, _, _ => .error (.syntaxFault .incomplete)
  | fuel + 1, dump, text => do
    let (path, text) ← readName text
    let (param, text) ← readParam (← readMark ':' text)
    let dump := dump.insert path param
    match skipBlanks text with
    | ',' :: text => readParams fuel dump text
    | '}' :: text => return (dump, text)
    | [] => .error (.syntaxFault .incomplete)
    | _ => .error (.syntaxFault .malformed)

def readDump : Reader Dump := fun text =>
  match skipBlanks text with
  | '{' :: text =>
    match skipBlanks text with
    | '}' :: text => .ok (∅, text)
    | text => readParams text.length ∅ text
  | text => unexpected "a map" text

end ConfigFile

/-- Reads the text of a configuration file. -/
def Dump.ofText (text : String) : Except FileError Dump := do
  let (dump, rest) ← ConfigFile.readDump text.toList
  if (Json.skipBlanks rest).isEmpty then return dump else .error (.syntaxFault .malformed)

end FinalityGadget
