import Directory.Value.Rule

/-!
# Attribute types

The schema identity of an attribute: its OID, its names, the type it specializes, and the rules
under which its values are matched.
-/

namespace Directory

/-- An attribute type. The superior is given as it is known to the schema at hand. -/
structure AttributeType where
  oid : String
  names : List String := []
  superior : Option String := none
  equality : Option MatchingRule := none
  ordering : Option MatchingRule := none
  substring : Option MatchingRule := none
  deriving DecidableEq, Repr, Inhabited

namespace AttributeType

/-- The primary name: the first name, or the OID of a type without names. -/
def name (t : AttributeType) : String := t.names.head?.getD t.oid

/-- Everything that the type answers to: its names, then its OID. -/
def identifiers (t : AttributeType) : List String := t.names ++ [t.oid]

/-- The string is the OID, or one of the names up to the case of ASCII letters. -/
def isKnownAs (t : AttributeType) (id : String) : Bool :=
  t.oid == id || t.names.any fun n => Text.sameIgnoringAsciiCase n id

/-- The rule that orders values: the ordering rule, else the equality rule. -/
def orderingRule? (t : AttributeType) : Option MatchingRule := t.ordering.or t.equality

theorem oid_mem_identifiers (t : AttributeType) : t.oid ∈ t.identifiers := by simp [identifiers]

theorem mem_identifiers {t : AttributeType} {s : String} :
    s ∈ t.identifiers ↔ s ∈ t.names ∨ s = t.oid := by simp [identifiers]

end AttributeType

end Directory
