import Directory.Search.Evaluator

/-!
# Plans

Planning a filter determines, besides its evaluator, which entries can match at all. A set of
candidates comes from the indexes: a conjunction takes the candidates common to its bounded
children, a disjunction those of all its children, and a negation can be met by any entry. The tree
of `PlanNode`s tells what became of each part of the filter.
-/

namespace Directory

/-- The entries that can match. -/
inductive Candidates where
  /-- Only these. -/
  | bounded (ids : SortedSet EntryId)
  /-- Any entry. -/
  | unbounded
  deriving DecidableEq, Repr, Inhabited

namespace Candidates

/-- The ids, unless any entry can match. -/
def ids? : Candidates → Option (SortedSet EntryId)
  | bounded ids => some ids
  | unbounded => none

/-- The number of candidates, unless any entry can match. -/
def count? (c : Candidates) : Option Nat := c.ids?.map SortedSet.size

/-- The candidates are known. -/
def isBounded (c : Candidates) : Bool := c.ids?.isSome

/-- The entries that can match one of two filters. -/
def union : Candidates → Candidates → Candidates
  | bounded a, bounded b => bounded (a.union b)
  | _, _ => unbounded

/-- The members of `seed` that belong to all of the sets. Once none is left the others are not
looked at. -/
def retainAll (seed : SortedSet EntryId) : List (SortedSet EntryId) → SortedSet EntryId
  | [] => seed
  | s :: ss => if seed.isEmpty then seed else retainAll (seed.inter s) ss

/-- The entries that can match all of the filters, found from the smallest set on. -/
def interAll (cs : List Candidates) : Candidates :=
  match (cs.filterMap ids?).mergeSort fun a b => decide (a.size ≤ b.size) with
  | [] => unbounded
  | seed :: rest => bounded (retainAll seed rest)

/-- The entries that can match one of the filters. -/
def unionAll : List Candidates → Candidates
  | [] => bounded .empty
  | c :: cs => c.union (unionAll cs)

end Candidates

namespace Leaf

/-- The key is a text that begins with this one. -/
def beginsWith (start : String) : NormalValue → Bool
  | .integer _ => false
  | .text s => start.toList.isPrefixOf s.toList

/-- The pairs whose key begins with the text. Such keys stand together, from the text itself on. -/
def pairsBeginning (ix : AttributeIndex) (start : String) : List (NormalValue × EntryId) :=
  (ix.postings.startingAt (.text start)).takeWhile fun pair => beginsWith start pair.1

/-- The candidates for an assertion, with the name of the index that they come from. -/
def candidates (l : Leaf) (s : Store) : Candidates × Option String :=
  match l.index? s with
  | none => (.unbounded, none)
  | some ix =>
    match l.condition with
    | .equals _ _ value => (.bounded (ix.idsWith value), some ix.attr.name)
    | .bounded .atLeast _ bound => (.bounded (ix.idsAtLeast bound), some ix.attr.name)
    | .bounded .atMost _ bound => (.bounded (ix.idsAtMost bound), some ix.attr.name)
    | .present =>
      (.bounded (s.presence.idsWith (Condition.presenceKey ix)), some s.presence.attr.name)
    | .like _ pattern =>
      match pattern.initial with
      | none => (.unbounded, none)
      | some start =>
        (.bounded (idsOf ((pairsBeginning ix start).filter fun pair => pattern.accepts pair.1)),
          some ix.attr.name)

end Leaf

/-- What became of one part of a filter. -/
inductive PlanNode where
  /-- The filter, or its kind if it has children; the index that bounds it; the number of
  candidates, unless any entry can match; and the children. -/
  | node (filter : String) (index : Option String) (count : Option Nat) (children : List PlanNode)
  deriving Repr, Inhabited

/-- A planned filter. -/
structure Plan where
  evaluator : Evaluator
  candidates : Candidates
  root : PlanNode
  deriving Repr, Inhabited

namespace Plan

/-- The plan of a single assertion. -/
def ofLeaf (s : Store) (a : Assertion) (l : Leaf) : Plan :=
  let (candidates, index) := l.candidates s
  ⟨.leaf l, candidates, .node (String.ofList a.toText) index candidates.count? []⟩

/-- The plan of a negation. -/
def negation (p : Plan) : Plan := ⟨.not p.evaluator, .unbounded, .node "not" none none [p.root]⟩

/-- The plan of a conjunction. -/
def conjunction (ps : List Plan) : Plan :=
  let candidates := Candidates.interAll (ps.map Plan.candidates)
  ⟨Evaluator.conjunction (ps.map Plan.evaluator), candidates,
    .node "and" none candidates.count? (ps.map Plan.root)⟩

/-- The plan of a disjunction. -/
def disjunction (ps : List Plan) : Plan :=
  let candidates := Candidates.unionAll (ps.map Plan.candidates)
  ⟨.or (ps.map Plan.evaluator), candidates,
    .node "or" none candidates.count? (ps.map Plan.root)⟩

mutual

/-- Plan a filter. -/
def build (s : Store) (r : Registry) : Filter → Except SearchError Plan
  | .assertion a => (Leaf.bind s r a).map (ofLeaf s a)
  | .and fs => (buildAll s r fs).map conjunction
  | .or fs => (buildAll s r fs).map disjunction
  | .not f => (build s r f).map negation
  termination_by structural f => f

/-- Plan filters one after the other. -/
def buildAll (s : Store) (r : Registry) : List Filter → Except SearchError (List Plan)
  | [] => .ok []
  | f :: fs =>
    match build s r f with
    | .error err => .error err
    | .ok p => (buildAll s r fs).map (p :: ·)
  termination_by structural fs => fs

end

end Plan

end Directory
