/-!
# Decimal integers

Whole numbers as text. `showInteger` writes the canonical digits; `readNatural` and `readInteger`
accept an optional sign and any number of leading zeros, but nothing else.
-/

namespace Directory.Text

/-- The digits of a natural number, without leading zeros. -/
def showNatural (n : Nat) : List Char := Nat.toDigits 10 n

/-- The digits of an integer, after a minus sign when it is negative. -/
def showInteger : Int → List Char
  | .ofNat n => showNatural n
  | .negSucc n => '-' :: showNatural (n + 1)

/-- The value of a non-empty run of the digits 0 to 9. -/
def readDigits (cs : List Char) : Option Nat :=
  if cs ≠ [] ∧ cs.all Char.isDigit then some (Nat.ofDigitChars 10 cs 0) else none

/-- Digits that may follow a plus sign. -/
def readNatural : List Char → Option Nat
  | '+' :: cs => readDigits cs
  | cs => readDigits cs

/-- Digits that may follow a plus or a minus sign. -/
def readInteger : List Char → Option Int
  | '-' :: cs => (readDigits cs).map fun n => -(n : Int)
  | cs => (readNatural cs).map fun n => (n : Int)

theorem readDigits_showNatural (n : Nat) : readDigits (showNatural n) = some n := by
  have hall : (Nat.toDigits 10 n).all Char.isDigit = true :=
    List.all_eq_true.mpr fun c hc => Nat.isDigit_of_mem_toDigits (by decide) (by decide) hc
  simp [readDigits, showNatural, Nat.toDigits_ne_nil, hall,
    Nat.ofDigitChars_toDigits (b := 10) (by decide) (by decide)]

end Directory.Text
