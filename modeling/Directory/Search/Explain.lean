import Directory.Search.Engine

/-!
# Explanations

An explanation describes how a request would run, or why it would not, without running it. As text
it has a line for each fact and one for each node of the plan, indented by depth.
-/

namespace Directory

/-- How a request would run. -/
inductive Explanation where
  /-- The request can be planned. -/
  | accepted (plan : SearchPlan)
  /-- The request cannot be planned, with the reason and its code. -/
  | rejected (partition filter reason code : String)
  deriving Repr, Inhabited

/-- Explain a request. -/
def SearchRequest.explain (q : SearchRequest) (s : Store) (r : Registry)
    (defaultLimit : Option UInt64) : Explanation :=
  match q.plan s r defaultLimit with
  | .ok p => .accepted p
  | .error err => .rejected s.partition q.filter.display err.message err.code

/-- The digits of a number. -/
def showCount (n : Nat) : String := String.ofList (Text.showNatural n)

namespace PlanNode

/-- What is said about a node behind its filter. -/
def remark (index : Option String) (count : Option Nat) : String :=
  match index, count with
  | some index, some n => " [index: " ++ index ++ ", candidates: " ++ showCount n ++ "]"
  | none, some n => " [candidates: " ++ showCount n ++ "]"
  | _, none => " [unbounded]"

mutual

/-- The lines of a node at a depth. -/
def lines (depth : Nat) : PlanNode → List String
  | node filter index count children =>
    (String.ofList (List.replicate (2 + depth * 2) ' ') ++ filter ++ remark index count) ::
      linesOfAll (depth + 1) children
  termination_by structural n => n

/-- The lines of nodes at a depth, one after the other. -/
def linesOfAll (depth : Nat) : List PlanNode → List String
  | [] => []
  | n :: ns => n.lines depth ++ linesOfAll depth ns
  termination_by structural ns => ns

end

end PlanNode

namespace Explanation

/-- A line for a fact that is known. -/
def factLine (label : String) : Option Nat → List String
  | none => []
  | some n => [label ++ showCount n]

/-- The lines of the explanation. -/
def lines : Explanation → List String
  | accepted p =>
    ["=== EXPLAIN PLAN ===", "Partition: " ++ p.partition, "Filter: " ++ p.filter,
      "Status: ACCEPTED", "Scan Type: " ++ p.scanType.name]
      ++ factLine "Candidates: " p.candidateCount
      ++ factLine "Size Limit: " (p.sizeLimit.map UInt64.toNat)
      ++ "Plan:" :: p.plan.root.lines 0
  | rejected partition filter reason code =>
    ["=== EXPLAIN PLAN ===", "Partition: " ++ partition, "Filter: " ++ filter,
      "Status: REJECTED", "Error Code: " ++ code, "Reason: " ++ reason]

/-- The explanation as text, each line ended. -/
def toText (x : Explanation) : String := String.join (x.lines.map (· ++ "\n"))

end Explanation

end Directory
