import Directory.Text.Case.Table

/-!
# Letter case

Two ways to disregard case. `lower` is the full lowercase mapping of Unicode: most characters map
one to one, `İ` becomes two characters, and `Σ` becomes `ς` at the end of a word and `σ` elsewhere.
`asciiUpper` and `sameIgnoringAsciiCase` look at the letters A to Z only.
-/

namespace Directory.Text

/-- The lowercase form of a character taken alone. -/
def lowerChar (c : Char) : Char :=
  match lowerRuns.find? fun r => r.covers c.toNat with
  | some r => Char.ofNat ((c.toNat : Int) + r.shift).toNat
  | none => c

/-- After any case-ignorable characters comes a cased one. -/
def reachesCased (cs : List Char) : Bool :=
  match cs.dropWhile (inRanges caseIgnorableRanges) with
  | [] => false
  | c :: _ => inRanges casedRanges c

/-- A sigma stands at the end of a word: a cased letter precedes it and none follows. The text
before it is given in reverse. -/
def endsWord (before after : List Char) : Bool :=
  reachesCased before && !reachesCased after

/-- The lowercase form of a character between its neighbours, those before it in reverse. -/
def lowerBetween (before after : List Char) (c : Char) : List Char :=
  if c = 'İ' then ['i', '\u0307']
  else if c = 'Σ' then [if endsWord before after then 'ς' else 'σ']
  else [lowerChar c]

/-- Lowercase a text that continues `before`, which is given in reverse. -/
def lowerFrom (before : List Char) : List Char → List Char
  | [] => []
  | c :: cs => lowerBetween before cs c ++ lowerFrom (c :: before) cs

/-- The lowercase form of a text. -/
def lower (cs : List Char) : List Char := lowerFrom [] cs

/-- Uppercase the letters a to z. -/
def asciiUpper (cs : List Char) : List Char := cs.map Char.toUpper

/-- The texts agree up to the case of the letters A to Z. -/
def sameIgnoringAsciiCase (a b : String) : Bool :=
  asciiUpper a.toList == asciiUpper b.toList

@[simp] theorem lower_nil : lower [] = [] := rfl

theorem lowerFrom_cons (before : List Char) (c : Char) (cs : List Char) :
    lowerFrom before (c :: cs) = lowerBetween before cs c ++ lowerFrom (c :: before) cs := rfl

end Directory.Text

namespace Directory

/-- The lowercase form of a string. -/
def lowercase (s : String) : String := String.ofList (Text.lower s.toList)

@[simp] theorem toList_lowercase (s : String) : (lowercase s).toList = Text.lower s.toList := by
  simp [lowercase]

end Directory
