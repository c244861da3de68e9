/-!
# Binary fractions of 53 bits

The finite numbers of the 64-bit binary floating-point format, as a sign, a significand and a
power of two. Results are rounded to the nearest such number, a tie going to the even significand;
a result past the largest has none. `shortest` gives the fewest decimal digits that name a number.
-/

namespace FinalityGadget

/-- The number `significand * 2 ^ exponent`, negated if `negative`. Numbers are kept in the form
with the largest significand below `2 ^ 53` that an exponent of at least -1074 allows. -/
structure Binary64 where
  negative : Bool
  significand : Nat
  exponent : Int
deriving DecidableEq, Repr

/-- The integer nearest to `num / den`, a tie going to the even one. -/
def roundHalfEven (num den : Nat) : Nat :=
  let quotient := num / den
  let twice := 2 * (num % den)
  if twice < den then quotient
  else if twice = den ∧ quotient % 2 = 0 then quotient
  else quotient + 1

namespace Binary64

/-- `2 ^ n`, or 1 if `n` is negative. -/
def twoTo (n : Int) : Nat := Nat.pow 2 n.toNat

/-- `10 ^ n`, or 1 if `n` is negative. -/
def tenTo (n : Int) : Nat := Nat.pow 10 n.toNat

/-- The least significand of 53 bits. -/
def leastNormal : Nat := 0x10000000000000

def minExponent : Int := -1074

def maxExponent : Int := 971

def zero (negative : Bool) : Binary64 := ⟨negative, 0, minExponent⟩

/-- The magnitude as a fraction. -/
def toFraction (x : Binary64) : Nat × Nat :=
  (x.significand * twoTo x.exponent, twoTo (-x.exponent))

/-- The exponent at which `num / den` has a significand of 53 bits, or the smallest exponent. -/
def exponentOf (num den : Nat) : Int :=
  let guess : Int := (num.log2 : Int) - den.log2
  let exact := if num * twoTo (-guess) < den * twoTo guess then guess - 1 else guess
  max (exact - 52) minExponent

/-- The number nearest to `num / den`, unless that is past the largest. -/
def ofFraction? (negative : Bool) (num den : Nat) : Option Binary64 :=
  if num = 0 then some (zero negative)
  else
    let e := exponentOf num den
    let q := roundHalfEven (num * twoTo (-e)) (den * twoTo e)
    let (q, e) := if q = 2 * leastNormal then (leastNormal, e + 1) else (q, e)
    if e ≤ maxExponent then some ⟨negative, q, e⟩ else none

def ofNat? (n : Nat) : Option Binary64 := ofFraction? false n 1

def mul? (x y : Binary64) : Option Binary64 :=
  let (a, b) := x.toFraction
  let (c, d) := y.toFraction
  ofFraction? (x.negative != y.negative) (a * c) (b * d)

/-- The quotient by a number that is not zero. -/
def div? (x y : Binary64) : Option Binary64 :=
  let (a, b) := x.toFraction
  let (c, d) := y.toFraction
  ofFraction? (x.negative != y.negative) (a * d) (b * c)

/-- A decimal number `digits * 10 ^ exponent`. -/
structure Decimal where
  digits : Nat
  exponent : Int
deriving DecidableEq, Repr

/-- The numbers that round to `x` lie between these two, in quarters of a unit in the last place;
the ends belong to them if the significand is even. -/
def bounds (x : Binary64) : Nat × Nat :=
  let below := if x.significand = leastNormal ∧ x.exponent ≠ minExponent then 1 else 2
  (4 * x.significand - below, 4 * x.significand + 2)

/-- The decimal on the grid of `10 ^ k` that rounds to `x` and is nearest to it, if any. -/
def onGrid? (x : Binary64) (k : Int) : Option Decimal :=
  -- All quantities are counted in quarters of `2 ^ x.exponent` and scaled to integers.
  let unit := twoTo x.exponent * tenTo (-k)
  let step := 4 * tenTo k * twoTo (-x.exponent)
  let (low, high) := x.bounds
  let value := 4 * x.significand * unit
  let inside (d : Nat) : Bool :=
    if x.significand % 2 = 0 then
      low * unit ≤ d * step ∧ d * step ≤ high * unit
    else low * unit < d * step ∧ d * step < high * unit
  let floor := value / step
  let nearest := roundHalfEven value step
  let other := if nearest = floor then floor + 1 else floor
  if nearest ≠ 0 ∧ inside nearest then some ⟨nearest, k⟩
  else if other ≠ 0 ∧ inside other then some ⟨other, k⟩
  else none

/-- The position of the leading decimal digit of `num / den`, 0 for the digit of the units. -/
def decimalPosition (num den : Nat) : Int :=
  let guess : Int := (Nat.repr num).length - (Nat.repr den).length
  if num * tenTo (-guess) < den * tenTo guess then guess - 1 else guess

/-- Tries grids of one more digit each, up to the number of digits that always suffices. -/
def search (x : Binary64) (position : Int) : (digits remaining : Nat) → Decimal
  | _, 0 => ⟨x.significand, 0⟩
  | digits, remaining + 1 =>
    match onGrid? x (position - digits) with
    | some d => d
    | none => search x position (digits + 1) remaining

/-- Drops zeros at the end of the digits. -/
def Decimal.trim (d : Decimal) : (fuel : Nat) → Decimal
  | 0 => d
  | fuel + 1 =>
    if d.digits ≠ 0 ∧ d.digits % 10 = 0 then Decimal.trim ⟨d.digits / 10, d.exponent + 1⟩ fuel
    else d

/-- The shortest decimal that rounds to `x`, which is not zero; of several the nearest to it. -/
def shortest (x : Binary64) : Decimal :=
  let (num, den) := x.toFraction
  (search x (decimalPosition num den) 0 17).trim 17

/-- The text of a number: positional while the point falls within or next to the digits, with an
exponent and its sign otherwise. A number always shows a point or an exponent. -/
def text (x : Binary64) : String :=
  let sign := if x.negative then "-" else ""
  if x.significand = 0 then sign ++ "0.0"
  else
    let d := x.shortest
    let digits := (Nat.repr d.digits).toList
    let length := digits.length
    let point : Int := length + d.exponent
    let zeros (n : Int) : List Char := List.replicate n.toNat '0'
    let body : List Char :=
      if 0 ≤ d.exponent ∧ point ≤ 16 then digits ++ zeros d.exponent ++ ".0".toList
      else if 0 < point ∧ point ≤ 16 then
        digits.take point.toNat ++ '.' :: digits.drop point.toNat
      else if -5 < point ∧ point ≤ 0 then "0.".toList ++ zeros (-point) ++ digits
      else
        let fraction := if length = 1 then [] else '.' :: digits.drop 1
        let mark := if 0 < point then "e+" else "e"
        digits.take 1 ++ fraction ++ mark.toList ++ (toString (point - 1)).toList
    sign ++ String.ofList body

end Binary64

end FinalityGadget
