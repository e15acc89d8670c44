import Directory.Search.Cursor

/-!
# Searching a store

A request is a filter with a size limit of its own or none. Planning it fixes the source of the
candidates and the limit that applies; opening the plan starts the search.
-/

namespace Directory

/-- A filter and the greatest number of entries wanted; zero means any number. -/
structure SearchRequest where
  filter : Filter
  sizeLimit : Option UInt64 := none
  deriving Repr, Inhabited

/-- Where candidates come from. -/
inductive ScanType where
  | indexedCandidates
  | fullScan
  deriving DecidableEq, Repr, Inhabited

/-- The name that is shown. -/
def ScanType.name : ScanType → String
  | indexedCandidates => "INDEXED_CANDIDATES"
  | fullScan => "FULL_SCAN"

/-- A planned search of a partition. -/
structure SearchPlan where
  partition : String
  filter : String
  plan : Plan
  sizeLimit : Option UInt64
  deriving Repr, Inhabited

namespace SearchPlan

/-- Where the candidates come from. -/
def scanType (p : SearchPlan) : ScanType :=
  if p.plan.candidates.isBounded then .indexedCandidates else .fullScan

/-- The number of candidates, unless any entry can match. -/
def candidateCount (p : SearchPlan) : Option Nat := p.plan.candidates.count?

/-- Start the search. -/
def start (p : SearchPlan) (s : Store) : SearchCursor :=
  .start s p.plan.candidates p.plan.evaluator p.sizeLimit

end SearchPlan

/-- Plan a request. Without a limit of its own the default applies. -/
def SearchRequest.plan (q : SearchRequest) (s : Store) (r : Registry)
    (defaultLimit : Option UInt64) : Except SearchError SearchPlan :=
  (Plan.build s r q.filter).map fun plan =>
    { partition := s.partition
      filter := q.filter.display
      plan
      sizeLimit := q.sizeLimit.or defaultLimit }

/-- Plan a request and start the search. -/
def SearchRequest.search (q : SearchRequest) (s : Store) (r : Registry)
    (defaultLimit : Option UInt64) : Except SearchError SearchCursor :=
  (q.plan s r defaultLimit).map fun p => p.start s

end Directory
