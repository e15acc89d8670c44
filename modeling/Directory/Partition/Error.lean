import Directory.Store.Error

/-!
# Configuration errors

What can go wrong when a partition is configured and loaded.
-/

namespace Directory

/-- Why a configuration could not be loaded or a partition not be opened. -/
inductive ConfigError where
  /-- The file cannot be read. -/
  | io (path reason : String)
  /-- The text is no document of the expected kind. -/
  | parse (path reason : String)
  /-- The document makes no sense. -/
  | invalid (reason : String)
  /-- The schema cannot be loaded. -/
  | schema (cause : SchemaError)
  /-- An index cannot be created or an entry not be stored. -/
  | store (cause : StoreError)
  deriving DecidableEq, Repr

namespace ConfigError

/-- The stable code of the kind of error. -/
def code : ConfigError → String
  | io _ _ => "DIR_CONFIG_IO"
  | parse _ _ => "DIR_CONFIG_PARSE"
  | invalid _ => "DIR_CONFIG_INVALID"
  | schema cause => cause.code
  | store cause => cause.code

/-- The message. -/
def message : ConfigError → String
  | io path reason => "Failed to read '" ++ path ++ "': " ++ reason
  | parse path reason => "Invalid JSON in '" ++ path ++ "': " ++ reason
  | invalid reason => "Invalid partition config: " ++ reason
  | schema cause => cause.message
  | store cause => cause.message

end ConfigError

end Directory
