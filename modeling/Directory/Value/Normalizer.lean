import Directory.Schema.Error
import Directory.Text.Blank
import Directory.Text.Case
import Directory.Value.Normal

/-!
# Normalizers

How raw values become normal values.

* `noOp` keeps the text as it is;
* `deepTrim` trims the edges and collapses inner blanks;
* `deepTrimToLower` also disregards letter case;
* `numeric` reads a 64-bit integer;
* `boolean` accepts `TRUE` and `FALSE` in any case.

`normalizeSegment` does the same for one component of a substring pattern, whose edges are trimmed
only where the pattern itself ends.
-/

namespace Directory

/-- A way of bringing raw values into canonical form. -/
inductive Normalizer where
  | noOp
  | deepTrim
  | deepTrimToLower
  | numeric
  | boolean
  deriving DecidableEq, Repr, Inhabited

/-- The integers that a numeric value may have: those of 64 bits. -/
def isNumericValue (n : Int) : Bool :=
  decide (-0x8000000000000000 ≤ n) && decide (n < 0x8000000000000000)

namespace Normalizer

/-- The canonical form of a raw value, unless it does not fit the syntax. -/
def normalize (nz : Normalizer) (raw : String) : Except SchemaError NormalValue :=
  match nz with
  | noOp => .ok (.text raw)
  | deepTrim => .ok (.text (String.ofList (Text.squeeze raw.toList)))
  | deepTrimToLower => .ok (.text (String.ofList (Text.lower (Text.squeeze raw.toList))))
  | numeric =>
    match Text.readInteger (Text.trim raw.toList) with
    | some n =>
      if isNumericValue n then .ok (.integer n) else .error (.mismatch raw "not an integer")
    | none => .error (.mismatch raw "not an integer")
  | boolean =>
    let word := String.ofList (Text.asciiUpper (Text.trim raw.toList))
    if word = "TRUE" ∨ word = "FALSE" then .ok (.text word)
    else .error (.mismatch raw "not a boolean")

/-- The normal values are texts. -/
def isTextual : Normalizer → Bool
  | numeric => false
  | _ => true

/-- Trim the edges that are asked for. -/
def trimEdges (atStart atEnd : Bool) (cs : List Char) : List Char :=
  let cs := if atStart then Text.trimStart cs else cs
  if atEnd then Text.trimEnd cs else cs

/-- The canonical form of one component of a substring pattern. -/
def normalizeSegment (nz : Normalizer) (raw : String) (atStart atEnd : Bool) :
    Except SchemaError String :=
  match nz with
  | noOp => .ok raw
  | deepTrim => .ok (String.ofList (trimEdges atStart atEnd (Text.collapse raw.toList)))
  | deepTrimToLower =>
    .ok (String.ofList (Text.lower (trimEdges atStart atEnd (Text.collapse raw.toList))))
  | boolean => .ok (String.ofList (trimEdges atStart atEnd (Text.asciiUpper raw.toList)))
  | numeric => .error (.mismatch raw "substring components need a textual syntax")

end Normalizer

end Directory
