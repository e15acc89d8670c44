import Directory.CommandLine.Arguments
import Directory.CommandLine.Error
import Directory.CommandLine.Help
import Directory.Json.Canonical

/-!
# Running commands

Both commands take a filter from the command line or a request from the input, load a fixture, and
plan the request. A search then writes the entries that it finds and a summary, one JSON value a
line; an explanation is written as text or as JSON. What was written before an error stays written,
and the error follows as a response of its own.
-/

namespace Directory

/-- What a command wrote and how it ended. -/
structure Outcome where
  output : String
  failure : Option CommandError
  deriving Repr

namespace Outcome

/-- The exit code. -/
def exitCode (o : Outcome) : Nat := if o.failure.isSome then 1 else 0

end Outcome

namespace CommandLine

/-- A JSON value on a line of its own, members in the order of their keys. -/
def line (j : Json) : String := j.sorted.print ++ "\n"

/-- A positive response. -/
def response (data : Json) : String :=
  line (.record [("status", .text "ok"), ("data", data)])

/-- The request that asks for a filter given as JSON text. -/
def requestOfFilter (source : String) : Except CommandError SearchRequest :=
  match (Json.parse source).bind (Json.decode Filter.decoder) with
  | some filter => .ok { filter }
  | none => .error ⟨.invalidRequest, "Invalid filter: not a filter document", none⟩

/-- The request that the input holds. The input is taken in as a whole before it is looked at, and
assertions in it have to be written out. -/
def requestOfInput (input : Except String String) : Except CommandError SearchRequest :=
  match input with
  | .error reason => .error ⟨.io, reason, none⟩
  | .ok source =>
    if PartitionConfig.isBlankText source then .error ⟨.invalidRequest, "Empty input", none⟩
    else
      match (Json.parse source).bind Json.canonical? with
      | none => .error ⟨.io, "JSON error: not a JSON text", none⟩
      | some j =>
        match Json.decode (SearchRequest.decoderWith false) j with
        | some q => .ok q
        | none => .error ⟨.invalidRequest, "Invalid search request: not a request document", none⟩

/-- The request: the filter from the command line or the request from the input, with the size
limit from the command line if there is one. -/
def buildRequest (filter : Option String) (sizeLimit : Option UInt64)
    (input : Except String String) : Except CommandError SearchRequest :=
  let request :=
    match filter with
    | some source => requestOfFilter source
    | none => requestOfInput input
  request.map fun q => { q with sizeLimit := sizeLimit.or q.sizeLimit }

/-- The partition in a fixture file: its default size limit, its registry and its store. -/
def openFixture (path : String) (content : Except String String) :
    Except CommandError (Option UInt64 × Registry × Store) := do
  let f ← (Fixture.ofFile path content).mapError .ofConfig
  let (r, s) ← f.load.mapError .ofConfig
  return (f.partition.sizeLimit, r, s)

/-- The summary of a finished search. -/
def summary (p : SearchPlan) (c : SearchCursor) : Json :=
  .record
    [("scan_type", .text p.scanType.name), ("returned", .natural c.returned),
     ("scanned", .natural c.scanned), ("size_limit_reached", .bool c.limitReached)]

/-- Run a search. -/
def runSearch (path : String) (content : Except String String) (q : SearchRequest) :
    Except CommandError Outcome := do
  let (limit, r, s) ← openFixture path content
  let p ← (q.plan s r limit).mapError .ofSearch
  let run := (p.start s).drain s
  let found := String.join (run.entries.map fun e => line e.shown)
  match run.failure with
  | some err => return ⟨found, some (.ofSearch err)⟩
  | none => return ⟨found ++ response (summary p run.cursor), none⟩

/-- Explain a search. -/
def runExplain (path : String) (content : Except String String) (q : SearchRequest)
    (asJson : Bool) : Except CommandError Outcome := do
  let (limit, r, s) ← openFixture path content
  let x := q.explain s r limit
  return ⟨if asJson then response x.toJson else x.toText, none⟩

/-- The name and the version of the program. -/
def versionText : String := "dirsearch 0.1.0\n"

/-- The fixture file that the command reads. -/
def fixture? : CommandLine → Option String
  | search fixture _ _ | explain fixture _ _ => some fixture
  | version | help _ => none

/-- The command reads a request from the input. -/
def readsInput : CommandLine → Bool
  | search _ none _ | explain _ none _ => true
  | _ => false

/-- Run a command, given the content of its fixture file and of the input as far as it reads
them. -/
def run (c : CommandLine) (content input : Except String String) : Outcome :=
  let result :=
    match c with
    | search fixture filter sizeLimit =>
      (buildRequest filter sizeLimit input).bind fun q => runSearch fixture content q
    | explain fixture filter asJson =>
      (buildRequest filter none input).bind fun q => runExplain fixture content q asJson
    | version => .ok ⟨versionText, none⟩
    | help topic => .ok ⟨topic.text, none⟩
  match result with
  | .ok o => o
  | .error err => ⟨"", some err⟩

end CommandLine

end Directory
