import Directory.Document.Filter
import Directory.Document.Partition
import Directory.Search.Explain

/-!
# Search documents

Requests, plans and explanations as JSON.
-/

namespace Directory

open Json

namespace SearchRequest

/-- The request as JSON. -/
def toJson (q : SearchRequest) : Json :=
  record [("filter", q.filter.toJson), ("size_limit", sizeLimitToJson q.sizeLimit)]

/-- Read a request, with assertions in short form only if that is accepted. -/
def decoderWith (acceptShort : Bool) : Decoder SearchRequest := fun n j => do
  let (n, fields) ← Decoder.fields ["filter", "size_limit"] n j
  match fields with
  | [filter, sizeLimit] =>
    return {
      filter := ← Decoder.required (Filter.decoderWith acceptShort) n filter
      sizeLimit := ← Decoder.optional (.orNull .word) none n sizeLimit }
  | _ => none

/-- Read a request. -/
def decoder : Decoder SearchRequest := decoderWith true

end SearchRequest

namespace PlanNode

mutual

/-- The node as JSON; an index or children are mentioned only where there are some. -/
def toJson : PlanNode → Json
  | node filter index count children =>
    record
      (("filter", text filter)
        :: index.toList.map (fun name => ("index", text name))
        ++ ("candidates", nullable natural count)
        :: if children.isEmpty then [] else [("children", .array (toJsons children))])
  termination_by structural n => n

/-- The nodes as JSON, one after the other. -/
def toJsons : List PlanNode → List Json
  | [] => []
  | n :: ns => n.toJson :: toJsons ns
  termination_by structural ns => ns

end

end PlanNode

/-- The explanation as JSON, with everything written out. -/
def Explanation.toJson : Explanation → Json
  | accepted p =>
    record
      [("accepted", .bool true), ("partition", text p.partition), ("filter", text p.filter),
       ("scan_type", text p.scanType.name), ("candidates", nullable natural p.candidateCount),
       ("size_limit", sizeLimitToJson p.sizeLimit), ("plan", p.plan.root.toJson),
       ("rejection_reason", .null), ("rejection_code", .null)]
  | rejected partition filter reason code =>
    record
      [("accepted", .bool false), ("partition", text partition), ("filter", text filter),
       ("scan_type", .null), ("candidates", .null), ("size_limit", .null), ("plan", .null),
       ("rejection_reason", text reason), ("rejection_code", text code)]

end Directory
