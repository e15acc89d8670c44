import Directory.Text.Integer

/-!
# Numbers in double precision

A written number is taken in double precision as its leading digits, as many of them as 64 bits
hold, times a power of ten. The digits, the power and the product are each rounded to 53
significant bits. What matters here is only whether the product is still finite.

* `roundToDouble`: the rounding of a natural number;
* `Scaled.ofDigits`, `Scaled.ofLiteral`: the digits and the power of ten of a written number;
* `Scaled.isFinite`: their product is within the range of double precision.
-/

namespace Directory.Json

/-- The number with 53 significant bits that is nearest, and of two the one that ends in an even
bit. -/
def roundToDouble (n : Nat) : Nat :=
  let unit := Nat.pow 2 (n.log2 - 52)
  let whole := n / unit
  let part := n % unit
  if 2 * part < unit then whole * unit
  else if unit < 2 * part then (whole + 1) * unit
  else (whole + whole % 2) * unit

/-! ### Digits -/

/-- Append digits to a number for as long as 64 bits hold it; what is left starts with the first
digit for which there is no room. -/
def takeDigits (n : Nat) : List Char → Nat × List Char
  | [] => (n, [])
  | d :: ds =>
    let m := n * 10 + (d.toNat - '0'.toNat)
    if m < UInt64.size then takeDigits m ds else (n, d :: ds)

/-- A significand of 64 bits, scaled by a power of ten. -/
structure Scaled where
  significand : Nat
  exponent : Int
  deriving DecidableEq, Repr

/-- The digits before and behind a decimal point, and an exponent. A digit before the point that
has no room counts as a zero, one behind it is left out. -/
def Scaled.ofDigits (whole fraction : List Char) (exponent : Int) : Scaled :=
  let (n, cut) := takeDigits 0 whole
  let (n, omitted) := takeDigits n fraction
  ⟨n, exponent + cut.length + omitted.length - fraction.length⟩

/-- A whole number, without its sign. -/
def Scaled.ofInteger (k : Int) : Scaled := .ofDigits (Text.showNatural k.natAbs) [] 0

/-- The value of an exponent as it is written behind its letter. -/
def exponentValue : List Char → Int
  | '-' :: ds => -(Nat.ofDigitChars 10 ds 0 : Int)
  | '+' :: ds => Nat.ofDigitChars 10 ds 0
  | ds => Nat.ofDigitChars 10 ds 0

/-- A number as it is written, without its sign. -/
def Scaled.ofLiteral (literal : String) : Scaled :=
  let cs := literal.toList.dropWhile (· == '-')
  let whole := cs.takeWhile Char.isDigit
  let rest := cs.dropWhile Char.isDigit
  let (fraction, rest) :=
    match rest with
    | '.' :: rest => (rest.takeWhile Char.isDigit, rest.dropWhile Char.isDigit)
    | rest => ([], rest)
  .ofDigits whole fraction (exponentValue (rest.drop 1))

/-! ### Range -/

/-- The product of significand and power of ten, for an exponent that is not negative. -/
def Scaled.product (s : Scaled) : Nat :=
  if s.significand = 0 then 0
  else roundToDouble (roundToDouble s.significand * roundToDouble (Nat.pow 10 s.exponent.toNat))

/-- The number is within the range of double precision. A power of ten beyond the range is too
great for all but zero, and a negative one never leaves the range. -/
def Scaled.isFinite (s : Scaled) : Bool :=
  if s.significand = 0 ∨ s.exponent ≤ 0 then true
  else if s.exponent > 308 then false
  else decide (s.product < Nat.pow 2 1024)

end Directory.Json
