import Directory.Value.Normalizer

/-!
# Matching rules

A matching rule says how the values of an attribute are compared: a normalizer brings them into
canonical form and a comparator orders the results. The rules that a definition can name form a
closed list, looked up by name without regard to the case of ASCII letters; any other pair of a
normalizer and a comparator makes a rule, too, for types that are registered without a definition.
-/

namespace Directory

/-- A total order on normal values. -/
inductive Comparator where
  | lexical
  | numeric
  deriving DecidableEq, Repr, Inhabited

/-- Compare as the comparator intends; values of the wrong kind keep their natural order. -/
protected def Comparator.compare : Comparator → NormalValue → NormalValue → Ordering
  | .lexical, .text a, .text b => compare a b
  | .numeric, .integer a, .integer b => compare a b
  | _, a, b => compare a b

/-- Both comparators order normal values naturally. -/
theorem Comparator.compare_eq (c : Comparator) (a b : NormalValue) :
    c.compare a b = compare a b := by
  cases c <;> cases a <;> cases b <;> rfl

/-- A named pair of a normalizer and a comparator. -/
structure MatchingRule where
  name : String
  normalizer : Normalizer
  comparator : Comparator
  deriving DecidableEq, Repr, Inhabited

namespace MatchingRule

def caseIgnoreMatch : MatchingRule := ⟨"caseIgnoreMatch", .deepTrimToLower, .lexical⟩
def caseIgnoreOrderingMatch : MatchingRule :=
  ⟨"caseIgnoreOrderingMatch", .deepTrimToLower, .lexical⟩
def caseIgnoreSubstringsMatch : MatchingRule :=
  ⟨"caseIgnoreSubstringsMatch", .deepTrimToLower, .lexical⟩
def caseExactMatch : MatchingRule := ⟨"caseExactMatch", .deepTrim, .lexical⟩
def caseExactOrderingMatch : MatchingRule := ⟨"caseExactOrderingMatch", .deepTrim, .lexical⟩
def caseExactSubstringsMatch : MatchingRule := ⟨"caseExactSubstringsMatch", .deepTrim, .lexical⟩
def integerMatch : MatchingRule := ⟨"integerMatch", .numeric, .numeric⟩
def integerOrderingMatch : MatchingRule := ⟨"integerOrderingMatch", .numeric, .numeric⟩
def booleanMatch : MatchingRule := ⟨"booleanMatch", .boolean, .lexical⟩
def octetStringMatch : MatchingRule := ⟨"octetStringMatch", .noOp, .lexical⟩
def octetStringOrderingMatch : MatchingRule := ⟨"octetStringOrderingMatch", .noOp, .lexical⟩

/-- All rules that can be named. -/
def all : List MatchingRule :=
  [caseIgnoreMatch, caseIgnoreOrderingMatch, caseIgnoreSubstringsMatch, caseExactMatch,
   caseExactOrderingMatch, caseExactSubstringsMatch, integerMatch, integerOrderingMatch,
   booleanMatch, octetStringMatch, octetStringOrderingMatch]

/-- The rule of that name. -/
def named? (name : String) : Option MatchingRule :=
  all.find? fun r => Text.sameIgnoringAsciiCase r.name name

/-- The canonical form of a raw value under the rule. -/
def normalize (r : MatchingRule) (raw : String) : Except SchemaError NormalValue :=
  r.normalizer.normalize raw

/-- The order of normal values under the rule. -/
protected def compare (r : MatchingRule) (a b : NormalValue) : Ordering := r.comparator.compare a b

theorem compare_eq (r : MatchingRule) (a b : NormalValue) : r.compare a b = compare a b :=
  r.comparator.compare_eq a b

end MatchingRule

end Directory
