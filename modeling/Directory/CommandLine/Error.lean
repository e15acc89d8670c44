import Directory.Document.Search

/-!
# Command errors

Errors as the command line reports them: a kind, a message, and the code of the library error behind
it if there is one.
-/

namespace Directory

/-- The kinds of command errors. -/
inductive CommandErrorKind where
  /-- The fixture could not be loaded. -/
  | config
  /-- Input could not be read. -/
  | io
  /-- The filter or the request is no document of its kind. -/
  | invalidRequest
  /-- The search was refused or ended early. -/
  | searchFailed
  deriving DecidableEq, Repr

/-- The stable code of a kind of error. -/
def CommandErrorKind.code : CommandErrorKind → String
  | config => "DIR_CLI_CONFIG_ERROR"
  | io => "DIR_CLI_IO_ERROR"
  | invalidRequest => "DIR_CLI_INVALID_REQUEST"
  | searchFailed => "DIR_CLI_SEARCH_FAILED"

/-- Why a command failed. -/
structure CommandError where
  kind : CommandErrorKind
  message : String
  cause : Option String := none
  deriving DecidableEq, Repr

namespace CommandError

/-- The stable code. -/
def code (e : CommandError) : String := e.kind.code

/-- A configuration error in a command. -/
def ofConfig (e : ConfigError) : CommandError := ⟨.config, e.message, some e.code⟩

/-- A search error in a command. -/
def ofSearch (e : SearchError) : CommandError := ⟨.searchFailed, e.message, some e.code⟩

/-- The error in one line. -/
def display (e : CommandError) : String :=
  match e.cause with
  | some cause => e.code ++ " (" ++ cause ++ "): " ++ e.message
  | none => e.code ++ ": " ++ e.message

/-- The error as a response. -/
def toJson (e : CommandError) : Json :=
  .record
    ([("status", .text "error"), ("code", .text e.code), ("message", .text e.message)]
      ++ e.cause.toList.map fun cause => ("cause", .text cause))

end CommandError

end Directory
