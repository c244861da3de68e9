import FinalityGadget.Text.Digit

/-!
# Metric lines

In the text form of metrics a line gives the name of a metric, blanks and its value. The value of a
metric is the one in the first line of this form; the blanks may themselves break the line.
-/

namespace FinalityGadget.Metrics

/-- The digits of the value, if text starts with a line for a metric. -/
def valueAt? (name text : List Char) : Option (List Char) := do
  let behind ← name.isPrefixOf? text
  let value := behind.dropWhile Text.isBlank
  let digits := value.takeWhile Text.isDecimal
  if (behind.takeWhile Text.isBlank).isEmpty ∨ digits.isEmpty then none
  else
    match value.dropWhile Text.isDecimal with
    | [] | '\n' :: _ => some digits
    | _ => none

/-- The digits in the first line for a metric; `lineStart` tells whether the text starts a line. -/
def findValue? (name : List Char) : (lineStart : Bool) → (text : List Char) → Option (List Char)
  | _, [] => none
  | lineStart, c :: rest =>
    match if lineStart then valueAt? name (c :: rest) else none with
    | some digits => some digits
    | none => findValue? name (c = '\n') rest

/-- The number that ASCII digits stand for, up to a limit. -/
def numeral? (limit : Nat) (digits : List Char) : Option Nat :=
  if digits.all Char.isDigit then
    let n := digits.foldl (fun n c => 10 * n + (c.toNat - '0'.toNat)) 0
    if n ≤ limit then some n else none
  else none

/-- The value of a metric in the text form of metrics, if it does not exceed a limit. -/
def readValue? (limit : Nat) (name text : String) : Option Nat :=
  (findValue? name.toList true text.toList).bind (numeral? limit)

end FinalityGadget.Metrics
