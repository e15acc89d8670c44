import Directory.Search.Leaf

/-!
# Evaluators

A filter bound to a schema and a store. Conjunctions put the children that are expected to match
fewer entries first and stop at the first that fails; disjunctions keep their order and stop at the
first that holds.
-/

namespace Directory

/-- A filter bound to a schema and a store. -/
inductive Evaluator where
  | leaf (l : Leaf)
  | and (children : List Evaluator)
  | or (children : List Evaluator)
  | not (child : Evaluator)
  deriving Repr, Inhabited

namespace Evaluator

/-- Add estimates, up to the greatest word. -/
def addEstimates (a b : Nat) : Nat := min (a + b) unknownEstimate

mutual

/-- The number of entries expected to match. -/
def estimate : Evaluator → Nat
  | leaf l => l.estimate
  | and children => leastEstimate children
  | or children => totalEstimate children
  | not _ => unknownEstimate
  termination_by structural e => e

/-- The least estimate of the children. -/
def leastEstimate : List Evaluator → Nat
  | [] => unknownEstimate
  | e :: es => min e.estimate (leastEstimate es)
  termination_by structural es => es

/-- The sum of the estimates of the children. -/
def totalEstimate : List Evaluator → Nat
  | [] => 0
  | e :: es => addEstimates e.estimate (totalEstimate es)
  termination_by structural es => es

end

/-- The conjunction of the children, cheapest first; equal ones keep their order. -/
def conjunction (children : List Evaluator) : Evaluator :=
  .and (children.mergeSort fun a b => decide (a.estimate ≤ b.estimate))

mutual

/-- Bind a filter to a schema and a store. -/
def build (s : Store) (r : Registry) : Filter → Except SearchError Evaluator
  | .assertion a => (Leaf.bind s r a).map leaf
  | .and fs => (buildAll s r fs).map conjunction
  | .or fs => (buildAll s r fs).map or
  | .not f => (build s r f).map not
  termination_by structural f => f

/-- Bind filters to a schema and a store, one after the other. -/
def buildAll (s : Store) (r : Registry) : List Filter → Except SearchError (List Evaluator)
  | [] => .ok []
  | f :: fs =>
    match build s r f with
    | .error err => .error err
    | .ok e => (buildAll s r fs).map (e :: ·)
  termination_by structural fs => fs

end

mutual

/-- Whether a candidate matches, and the candidate with what was learned. -/
def evaluate (s : Store) : Evaluator → Candidate → Except SearchError Bool × Candidate
  | leaf l, c => l.evaluate s c
  | and children, c => evaluateAll s children c
  | or children, c => evaluateAny s children c
  | not child, c =>
    match evaluate s child c with
    | (.ok b, c) => (.ok !b, c)
    | (.error err, c) => (.error err, c)
  termination_by structural e => e

/-- Whether a candidate matches every child. -/
def evaluateAll (s : Store) : List Evaluator → Candidate → Except SearchError Bool × Candidate
  | [], c => (.ok true, c)
  | e :: es, c =>
    match evaluate s e c with
    | (.ok true, c) => evaluateAll s es c
    | answer => answer
  termination_by structural es => es

/-- Whether a candidate matches some child. -/
def evaluateAny (s : Store) : List Evaluator → Candidate → Except SearchError Bool × Candidate
  | [], c => (.ok false, c)
  | e :: es, c =>
    match evaluate s e c with
    | (.ok false, c) => evaluateAny s es c
    | answer => answer
  termination_by structural es => es

end

end Evaluator

end Directory
