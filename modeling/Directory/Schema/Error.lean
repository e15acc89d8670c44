/-!
# Schema errors

What can go wrong with attribute types and with values under them, each with a stable code and a
message.
-/

namespace Directory

/-- Why a schema operation failed. -/
inductive SchemaError where
  /-- No attribute type goes by this name. -/
  | unknownAttribute (name : String)
  /-- A value does not fit the syntax that it is read under. -/
  | mismatch (value reason : String)
  /-- An attribute type asks for a matching rule that does not exist. -/
  | unknownRule (attr rule : String)
  /-- A set of definitions that no registry can hold. -/
  | malformed (source reason : String)
  deriving DecidableEq, Repr

namespace SchemaError

/-- The stable code of the kind of error. -/
def code : SchemaError → String
  | unknownAttribute _ => "DIR_UNKNOWN_ATTRIBUTE"
  | mismatch _ _ => "DIR_SCHEMA_MISMATCH"
  | unknownRule _ _ => "DIR_UNKNOWN_MATCHING_RULE"
  | malformed _ _ => "DIR_MALFORMED_SCHEMA"

/-- The message. -/
def message : SchemaError → String
  | unknownAttribute name => "Unknown attribute type: " ++ name
  | mismatch value reason => "Value '" ++ value ++ "' cannot be normalized: " ++ reason
  | unknownRule attr rule =>
    "Unknown matching rule '" ++ rule ++ "' on attribute '" ++ attr ++ "'"
  | malformed source reason => "Malformed schema (" ++ source ++ "): " ++ reason

end SchemaError

end Directory
