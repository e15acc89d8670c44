import Directory.Filter
import Directory.Search.Candidate
import Directory.Search.Error

/-!
# Assertions bound to a schema and a store

`Leaf.bind` resolves the attribute of an assertion and the rule that decides it, brings the asserted
value into canonical form, and picks the index that can answer. `Leaf.evaluate` then decides
whether a candidate satisfies the assertion, from the index if there is one and otherwise from the
values of the candidate's entry.

* Equality asks for a value equal to the asserted one under the equality rule.
* Ordering asks for a value on one side of the asserted one under the ordering rule, or else under
  the equality rule; an index answers only if its rule treats values alike.
* Presence asks for any value; the presence index answers.
* A substring pattern asks for a value of its form under the substring rule.

A pattern is matched directly here. A library of regular expressions that has to compile it first may
refuse an expression for its size, and the assertion is unsupported then. Refusals of this kind are
left out: every pattern that can be brought into canonical form can be bound. What holds of a library
where it does not refuse is said in `Directory.Proofs.PatternExpression`.
-/

namespace Directory

/-- A side of an asserted value, which itself lies on both. -/
inductive Side where
  | atLeast
  | atMost
  deriving DecidableEq, Repr, Inhabited

namespace Side

/-- A value that compares like this to the asserted one lies on the side. -/
def holds : Side → Ordering → Bool
  | atLeast, o => o.isGE
  | atMost, o => o.isLE

/-- The kind of assertion. -/
def kind : Side → String
  | atLeast => "greater_eq"
  | atMost => "less_eq"

end Side

/-- What is asked of the values of an attribute. -/
inductive Condition where
  /-- A value equal to this one; whether only approximate match was asked for. -/
  | equals (approx : Bool) (rule : MatchingRule) (value : NormalValue)
  /-- A value on this side of the bound. -/
  | bounded (side : Side) (rule : MatchingRule) (bound : NormalValue)
  /-- Any value. -/
  | present
  /-- A value of the form of the pattern. -/
  | like (rule : MatchingRule) (pattern : Pattern)
  deriving DecidableEq, Repr, Inhabited

/-- The answer to an assertion, with the key that is worth noting when it holds. -/
inductive Answer where
  | no
  | yes (key : Option NormalValue)
  deriving DecidableEq, Repr, Inhabited

namespace Answer

/-- The assertion holds. -/
def holds : Answer → Bool
  | no => false
  | yes _ => true

/-- Note the key of a positive answer. -/
def recordIn (c : Candidate) : Answer → Candidate
  | no => c
  | yes key => c.record key

/-- A positive answer if the condition is true. -/
def ofBool (b : Bool) (key : Option NormalValue) : Answer := if b then yes key else no

end Answer

/-- The first positive answer for the values of a list. -/
def firstYes (test : String → Except SchemaError Answer) :
    List String → Except SchemaError Answer
  | [] => .ok .no
  | raw :: raws => do
    match ← test raw with
    | .no => firstYes test raws
    | .yes key => return .yes key

namespace Condition

/-- Whether a raw value satisfies the condition. -/
def test (c : Condition) (raw : String) : Except SchemaError Answer :=
  match c with
  | equals _ rule value => do
    let v ← rule.normalize raw
    return .ofBool (rule.compare v value == .eq) (some value)
  | bounded side rule bound => do
    let v ← rule.normalize raw
    return .ofBool (side.holds (rule.compare v bound)) (some v)
  | present => .ok (.yes none)
  | like rule pattern => do
    let v ← rule.normalize raw
    return .ofBool (pattern.accepts v) none

/-- The index has keys for the condition to be tested on. -/
def compatible (c : Condition) (ix : AttributeIndex) : Bool :=
  match c with
  | equals _ _ _ | present => true
  | bounded _ rule _ =>
    ix.rule.normalizer == rule.normalizer && ix.rule.comparator == rule.comparator
  | like rule _ => ix.rule.normalizer == rule.normalizer

/-- The key of an indexed attribute in the presence index. -/
def presenceKey (ix : AttributeIndex) : NormalValue := .text ix.attr.oid

/-- Whether an entry satisfies the condition according to an index. -/
def testIndex (c : Condition) (s : Store) (ix : AttributeIndex) (id : EntryId) : Answer :=
  match c with
  | equals _ _ value => .ofBool (ix.holds value id) (some value)
  | bounded .atLeast _ bound => .ofBool (ix.hasKeyAtLeast id bound) none
  | bounded .atMost _ bound => .ofBool (ix.hasKeyAtMost id bound) none
  | present => .ofBool (s.presence.holds (presenceKey ix) id) none
  | like _ pattern =>
    match (ix.keysOf id).find? pattern.accepts with
    | some key => .yes (some key)
    | none => .no

/-- The number of entries, or an upper bound of it, that satisfy the condition according to an
index. -/
def estimate (c : Condition) (s : Store) (ix : AttributeIndex) : Nat :=
  match c with
  | equals _ _ value => ix.countOf value
  | bounded .atLeast _ bound => ix.countAtLeast bound
  | bounded .atMost _ bound => ix.countAtMost bound
  | present => s.presence.countOf (presenceKey ix)
  | like _ _ => ix.size

end Condition

/-- The estimate when nothing is known: the greatest word of 64 bits. -/
def unknownEstimate : Nat := UInt64.size - 1

/-- An assertion bound to a schema and a store. -/
structure Leaf where
  /-- The asserted attribute type. -/
  attr : AttributeType
  /-- Its subtypes, whose values count as well. -/
  subtypes : List AttributeType
  condition : Condition
  /-- The type whose index answers, if one does. -/
  index : Option AttributeType
  /-- The number of entries expected to match. -/
  estimate : Nat
  deriving DecidableEq, Repr, Inhabited

namespace Leaf

/-- The condition that an assertion makes on the values of the attribute type. No pattern is refused
for its size. -/
def conditionOf (t : AttributeType) (a : Assertion) : Except SearchError Condition :=
  match a with
  | .equality _ value => equalTo false value
  | .approxMatch _ value => equalTo true value
  | .greaterEq _ value => onSide .atLeast value
  | .lessEq _ value => onSide .atMost value
  | .presence _ => .ok .present
  | .substring _ pattern =>
    match t.substring with
    | none => .error (.unsupported t.name a.kind "attribute has no substring rule")
    | some rule =>
      if rule.normalizer.isTextual then
        match pattern.normalize rule.normalizer with
        | .ok pattern => .ok (.like rule pattern)
        | .error e => .error (.ofSchema e)
      else .error (.unsupported t.name a.kind (rule.name ++ " does not produce text"))
where
  /-- The condition of an equality or an approximate match. -/
  equalTo (approx : Bool) (raw : String) : Except SearchError Condition :=
    match t.equality with
    | none => .error (.unsupported t.name a.kind "attribute has no equality rule")
    | some rule => ((rule.normalize raw).map (.equals approx rule)).mapError .ofSchema
  /-- The condition of an ordering assertion. -/
  onSide (side : Side) (raw : String) : Except SearchError Condition :=
    match t.orderingRule? with
    | none => .error (.noMatchingRule t.name side.kind)
    | some rule => ((rule.normalize raw).map (.bounded side rule)).mapError .ofSchema

/-- Bind an assertion to a schema and a store. -/
def bind (s : Store) (r : Registry) (a : Assertion) : Except SearchError Leaf := do
  let t ← (r.resolve a.attr).mapError .ofSchema
  let condition ← conditionOf t a
  let index := (s.usableIndexFor? r t).filter condition.compatible
  return {
    attr := t
    subtypes := r.subtypes t
    condition
    index := index.map AttributeIndex.attr
    estimate :=
      match index with
      | some ix => condition.estimate s ix
      | none => unknownEstimate }

/-- The index that answers, in its present state. -/
def index? (l : Leaf) (s : Store) : Option AttributeIndex :=
  l.index.bind fun t => s.indexAt? t.oid

/-- The values of an entry that count, those of the asserted type first. -/
def valuesIn (l : Leaf) (e : Entry) : List String :=
  (l.attr :: l.subtypes).flatMap fun t => (e.valuesOf t).getD []

/-- Whether an entry satisfies the assertion according to its values. -/
def testEntry (l : Leaf) (e : Entry) : Except SchemaError Answer :=
  firstYes l.condition.test (l.valuesIn e)

/-- Whether a candidate satisfies the assertion, and the candidate with what was learned. -/
def evaluate (l : Leaf) (s : Store) (c : Candidate) : Except SearchError Bool × Candidate :=
  match l.index? s with
  | some ix =>
    let answer := l.condition.testIndex s ix c.id
    (.ok answer.holds, answer.recordIn c)
  | none =>
    match c.resolve s with
    | (none, c) => (.ok false, c)
    | (some e, c) =>
      match l.testEntry e with
      | .ok answer => (.ok answer.holds, answer.recordIn c)
      | .error err => (.error (.ofSchema err), c)

end Leaf

end Directory
