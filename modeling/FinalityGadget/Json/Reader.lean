import FinalityGadget.Json
import FinalityGadget.Bytes

/-!
# Reading JSON text

A reader takes the remaining text and returns what it has read with the text behind it. Values may
be nested up to a depth that the caller sets. An integer within the 64-bit ranges is read exactly;
every other number is read as a binary fraction, as is `-0`.
-/

namespace FinalityGadget.Json

/-- What keeps a text from being JSON. -/
inductive SyntaxError
  /-- The text ends inside a value. -/
  | incomplete
  | malformed
  | numberOutOfRange
  /-- Arrays and objects are nested past the limit. -/
  | tooDeep
deriving DecidableEq, Repr

def isBlank (c : Char) : Bool := c = ' ' || c = '\n' || c = '\t' || c = '\r'

def skipBlanks (text : List Char) : List Char := text.dropWhile isBlank

/-- Reads exactly the given characters. -/
def expect : (expected text : List Char) → Except SyntaxError (List Char)
  | [], text => .ok text
  | _ :: _, [] => .error .incomplete
  | e :: expected, c :: text => if c = e then expect expected text else .error .malformed

/-- Reads four hexadecimal digits. -/
def readHex4 : List Char → Except SyntaxError (Nat × List Char)
  | a :: b :: c :: d :: text =>
    match Hex.value? a, Hex.value? b, Hex.value? c, Hex.value? d with
    | some a, some b, some c, some d => .ok (((a * 16 + b) * 16 + c) * 16 + d, text)
    | _, _, _, _ => .error .malformed
  | _ => .error .incomplete

/-- Reads the digits of an escaped character. A character past the basic plane is written as a high
surrogate and a low one; neither stands alone. -/
def readCodePoint (text : List Char) : Except SyntaxError (Char × List Char) := do
  let (unit, text) ← readHex4 text
  if 0xDC00 ≤ unit ∧ unit ≤ 0xDFFF then .error .malformed
  else if 0xD800 ≤ unit ∧ unit ≤ 0xDBFF then do
    let text ← expect ['\\', 'u'] text
    let (low, text) ← readHex4 text
    if 0xDC00 ≤ low ∧ low ≤ 0xDFFF then
      return (Char.ofNat (0x10000 + (unit - 0xD800) * 0x400 + (low - 0xDC00)), text)
    else .error .malformed
  else return (Char.ofNat unit, text)

/-- Reads what follows a backslash. -/
def readEscape : List Char → Except SyntaxError (Char × List Char)
  | [] => .error .incomplete
  | c :: text =>
    if c = '"' then .ok ('"', text)
    else if c = '\\' then .ok ('\\', text)
    else if c = '/' then .ok ('/', text)
    else if c = 'b' then .ok ('\x08', text)
    else if c = 'f' then .ok ('\x0c', text)
    else if c = 'n' then .ok ('\n', text)
    else if c = 'r' then .ok ('\r', text)
    else if c = 't' then .ok ('\t', text)
    else if c = 'u' then readCodePoint text
    else .error .malformed

/-- Reads the rest of a string behind its opening quote; `read` holds the characters before, last
first. -/
def readQuoted : (fuel : Nat) → (read text : List Char) → Except SyntaxError (List Char × List Char)
  | 0, _, _ => .error .incomplete
  | _ + 1, _, [] => .error .incomplete
  | fuel + 1, read, c :: text =>
    if c = '"' then .ok (read.reverse, text)
    else if c = '\\' then
      match readEscape text with
      | .ok (x, text) => readQuoted fuel (x :: read) text
      | .error e => .error e
    else if c.toNat < 0x20 then .error .malformed
    else readQuoted fuel (c :: read) text

/-- Reads a string behind its opening quote. -/
def readString (text : List Char) : Except SyntaxError (String × List Char) := do
  let (chars, rest) ← readQuoted (text.length + 1) [] text
  return (String.ofList chars, rest)

def digitValue (c : Char) : Nat := c.toNat - '0'.toNat

/-- Appends digits to a significand as long as it stays a word. Returns the significand and the
number of digits left out. -/
def appendDigits (significand : Nat) : List Char → Nat × Nat
  | [] => (significand, 0)
  | c :: digits =>
    let next := significand * 10 + digitValue c
    if next ≤ Word.maxNat then appendDigits next digits else (significand, digits.length + 1)

/-- The largest power of ten that scales a number in one step. -/
def maxScale : Int := 308

/-- The fraction `significand * 10 ^ exponent`, rounded at the significand, at the power of ten
and at their product or quotient. A quotient by a larger power is taken in steps. -/
def scale (significand : Binary64) (exponent : Int) : Except SyntaxError Binary64 :=
  if 0 ≤ exponent then
    if significand.significand = 0 then .ok significand
    else if maxScale < exponent then .error .numberOutOfRange
    else
      match (Binary64.ofNat? (Binary64.tenTo exponent)).bind significand.mul? with
      | some x => .ok x
      | none => .error .numberOutOfRange
  else
    let step := min (-exponent) maxScale
    match (Binary64.ofNat? (Binary64.tenTo step)).bind significand.div? with
    | some x =>
      if exponent = -step ∨ x.significand = 0 then .ok x else scale x (exponent + step)
    | none => .error .numberOutOfRange
termination_by exponent.natAbs
decreasing_by
  simp only [maxScale] at *
  omega

/-- Reads an exponent behind its mark. -/
def readExponent (text : List Char) : Except SyntaxError (Int × List Char) :=
  let (negative, text) : Bool × List Char :=
    match text with
    | '+' :: text => (false, text)
    | '-' :: text => (true, text)
    | text => (false, text)
  let digits := text.takeWhile Char.isDigit
  if digits.isEmpty then .error (if text.isEmpty then .incomplete else .malformed)
  else
    let magnitude : Nat := digits.foldl (fun n c => n * 10 + digitValue c) 0
    .ok (if negative then -(magnitude : Int) else magnitude, text.drop digits.length)

/-- The number that a significand and a power of ten stand for. -/
def scaled (negative : Bool) (significand : Nat) (exponent : Int) : Except SyntaxError Json := do
  match Binary64.ofNat? significand with
  | some x =>
    let x ← scale x exponent
    return .float { x with negative := negative }
  | none => .error .numberOutOfRange

/-- Reads an exponent, if there is one, and scales the significand. -/
def readScaled (negative : Bool) (significand : Nat) (exponent : Int) (text : List Char) :
    Except SyntaxError (Json × List Char) :=
  match text with
  | 'e' :: text | 'E' :: text => do
    let (shift, text) ← readExponent text
    return (← scaled negative significand (exponent + shift), text)
  | text => do
    return (← scaled negative significand exponent, text)

/-- Reads a number behind its sign. -/
def readNumber (negative : Bool) (text : List Char) : Except SyntaxError (Json × List Char) :=
  let whole := text.takeWhile Char.isDigit
  let text := text.drop whole.length
  if whole.isEmpty then .error (if text.isEmpty then .incomplete else .malformed)
  else if whole.head? = some '0' ∧ whole.length ≠ 1 then .error .malformed
  else
    let (significand, dropped) := appendDigits 0 whole
    match text with
    | '.' :: text =>
      let fraction := text.takeWhile Char.isDigit
      let text := text.drop fraction.length
      if fraction.isEmpty then .error (if text.isEmpty then .incomplete else .malformed)
      else
        let (significand, unread) := appendDigits significand fraction
        readScaled negative significand ((dropped : Int) - (fraction.length - unread : Nat)) text
    | 'e' :: _ | 'E' :: _ => readScaled negative significand dropped text
    | text =>
      if dropped ≠ 0 ∨ (negative ∧ (significand = 0 ∨ minInteger.natAbs < significand)) then
        readScaled negative significand dropped text
      else
        .ok (.integer (if negative then -(significand : Int) else significand), text)

/-- Reads the name of a field with the colon behind it. -/
def readName (text : List Char) : Except SyntaxError (String × List Char) :=
  match skipBlanks text with
  | '"' :: text => do
    let (name, text) ← readString text
    match skipBlanks text with
    | ':' :: text => return (name, text)
    | [] => .error .incomplete
    | _ => .error .malformed
  | [] => .error .incomplete
  | _ => .error .malformed

mutual

/-- Reads a value whose arrays and objects are nested at most `depth` deep. -/
def readValue : (fuel depth : Nat) → List Char → Except SyntaxError (Json × List Char)
  | 0, _, _ => .error .incomplete
  | fuel + 1, depth, text =>
    match skipBlanks text with
    | [] => .error .incomplete
    | '"' :: text => do
      let (s, text) ← readString text
      return (.string s, text)
    | 'n' :: text => do return (.null, ← expect "ull".toList text)
    | 't' :: text => do return (.bool true, ← expect "rue".toList text)
    | 'f' :: text => do return (.bool false, ← expect "alse".toList text)
    | '-' :: text => readNumber true text
    | '[' :: text =>
      match depth with
      | 0 => .error .tooDeep
      | depth + 1 =>
        match skipBlanks text with
        | ']' :: text => .ok (.array [], text)
        | text => readItems fuel depth [] text
    | '{' :: text =>
      match depth with
      | 0 => .error .tooDeep
      | depth + 1 =>
        match skipBlanks text with
        | '}' :: text => .ok (.object [], text)
        | text => readFields fuel depth [] text
    | c :: text => if c.isDigit then readNumber false (c :: text) else .error .malformed

/-- Reads the remaining items of an array; `items` holds those before, last first. -/
def readItems : (fuel depth : Nat) → List Json → List Char → Except SyntaxError (Json × List Char)
  | 0, _, _, _ => .error .incomplete
  | fuel + 1, depth, items, text =>
    match readValue fuel depth text with
    | .error e => .error e
    | .ok (item, text) =>
      match skipBlanks text with
      | ',' :: text => readItems fuel depth (item :: items) text
      | ']' :: text => .ok (.array (item :: items).reverse, text)
      | [] => .error .incomplete
      | _ => .error .malformed

/-- Reads the remaining fields of an object; `fields` holds those before, last first. -/
def readFields : (fuel depth : Nat) → List (String × Json) → List Char →
    Except SyntaxError (Json × List Char)
  | 0, _, _, _ => .error .incomplete
  | fuel + 1, depth, fields, text =>
    match readName text with
    | .error e => .error e
    | .ok (name, text) =>
      match readValue fuel depth text with
      | .error e => .error e
      | .ok (value, text) =>
        match skipBlanks text with
        | ',' :: text => readFields fuel depth ((name, value) :: fields) text
        | '}' :: text => .ok (.ofFields ((name, value) :: fields).reverse, text)
        | [] => .error .incomplete
        | _ => .error .malformed

end

/-- The depth to which arrays and objects may be nested. -/
def maxDepth : Nat := 127

/-- Reads a value nested at most `depth` deep. Reading a character takes at most two calls. -/
def read (depth : Nat) (text : List Char) : Except SyntaxError (Json × List Char) :=
  readValue (2 * text.length + 1) depth text

/-- Reads a text that holds one value and blanks around it. -/
def parse (text : String) : Except SyntaxError Json := do
  let (value, rest) ← read maxDepth text.toList
  if (skipBlanks rest).isEmpty then return value else .error .malformed

end FinalityGadget.Json
