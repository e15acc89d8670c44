import Directory.Store.Error

/-!
# Search errors

What can go wrong when a search is planned or run. Errors of the schema and of the store that have
a meaning of their own in a search are restated; the others are passed on.
-/

namespace Directory

/-- Why a search failed. -/
inductive SearchError where
  /-- The filter names an attribute that the schema does not know. -/
  | unknownAttribute (name : String)
  /-- The attribute has no rule that could answer this kind of assertion. -/
  | noMatchingRule (attr assertion : String)
  /-- This kind of assertion makes no sense for the attribute. -/
  | unsupported (attr assertion reason : String)
  /-- A value does not fit the syntax that it is read under. -/
  | mismatch (value reason : String)
  /-- The storage itself failed. -/
  | storage (reason : String)
  /-- Another schema error. -/
  | schema (cause : SchemaError)
  /-- Another store error. -/
  | store (cause : StoreError)
  deriving DecidableEq, Repr

namespace SearchError

/-- The stable code of the kind of error. -/
def code : SearchError → String
  | unknownAttribute _ => "DIR_UNKNOWN_ATTRIBUTE"
  | noMatchingRule _ _ => "DIR_NO_MATCHING_RULE"
  | unsupported _ _ _ => "DIR_UNSUPPORTED_MATCH"
  | mismatch _ _ => "DIR_SCHEMA_MISMATCH"
  | storage _ => "DIR_STORAGE_ERROR"
  | schema cause => cause.code
  | store cause => cause.code

/-- The message. -/
def message : SearchError → String
  | unknownAttribute name => "Unknown attribute '" ++ name ++ "'"
  | noMatchingRule attr assertion =>
    "Attribute '" ++ attr ++ "' has no matching rule usable for " ++ assertion
  | unsupported attr assertion reason =>
    "Unsupported " ++ assertion ++ " match on '" ++ attr ++ "': " ++ reason
  | mismatch value reason => "Schema mismatch for value '" ++ value ++ "': " ++ reason
  | storage reason => "Storage failure: " ++ reason
  | schema cause => cause.message
  | store cause => cause.message

/-- Only a failing storage makes it pointless to go on. -/
def isFatal : SearchError → Bool
  | storage _ => true
  | _ => false

/-- A schema error in a search. -/
def ofSchema : SchemaError → SearchError
  | .unknownAttribute name => unknownAttribute name
  | .mismatch value reason => mismatch value reason
  | cause => schema cause

/-- A store error in a search. -/
def ofStore : StoreError → SearchError
  | .schema cause => ofSchema cause
  | .storage reason => storage reason
  | cause => store cause

end SearchError

end Directory
