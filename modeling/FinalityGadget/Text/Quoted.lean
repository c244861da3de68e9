import FinalityGadget.Bytes
import FinalityGadget.Text.Printable

/-!
# Quoted text

Text between quotes in which every character can be told apart: quotes and backslashes are marked
by a backslash, line ends, tabs and the zero character have a letter each, and every other
character that is not printable is given by its code point.
-/

namespace FinalityGadget.Text

/-- The hexadecimal digits of a number, without leading zeros. -/
def hexDigits (n : Nat) : List Char := (Nat.toDigits 16 n).map fun c => c.toLower

def quoteChar (c : Char) : List Char :=
  if c = '\x00' then ['\\', '0']
  else if c = '\t' then ['\\', 't']
  else if c = '\r' then ['\\', 'r']
  else if c = '\n' then ['\\', 'n']
  else if c = '"' then ['\\', '"']
  else if c = '\\' then ['\\', '\\']
  else if isPrintable c then [c]
  else ['\\', 'u', '{'] ++ hexDigits c.toNat ++ ['}']

def quote (s : String) : String := String.ofList ('"' :: s.toList.flatMap quoteChar ++ ['"'])

end FinalityGadget.Text
