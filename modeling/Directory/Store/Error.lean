import Directory.Entry
import Directory.Schema.Error

/-!
# Store errors

What can go wrong when a store is read or written.
-/

namespace Directory

/-- Why a store operation failed. -/
inductive StoreError where
  /-- A schema error. -/
  | schema (cause : SchemaError)
  /-- The storage itself failed. -/
  | storage (reason : String)
  /-- The attribute has an index already. -/
  | duplicateIndex (attr : String)
  /-- An entry with this id exists already. -/
  | duplicateEntry (id : EntryId)
  /-- The attribute has no equality rule to make keys with. -/
  | notIndexable (attr : String)
  deriving DecidableEq, Repr

namespace StoreError

/-- The stable code of the kind of error. -/
def code : StoreError → String
  | schema cause => cause.code
  | storage _ => "DIR_STORAGE_ERROR"
  | duplicateIndex _ => "DIR_DUPLICATE_INDEX"
  | duplicateEntry _ => "DIR_DUPLICATE_ENTRY"
  | notIndexable _ => "DIR_NOT_INDEXABLE"

/-- The message. -/
def message : StoreError → String
  | schema cause => cause.message
  | storage reason => "Storage failure: " ++ reason
  | duplicateIndex attr => "Attribute '" ++ attr ++ "' is already indexed"
  | duplicateEntry id =>
    "Entry " ++ String.ofList (Text.showNatural id.toNat) ++ " already exists"
  | notIndexable attr =>
    "Attribute '" ++ attr ++ "' has no equality matching rule and cannot be indexed"

/-- Only a failing storage makes it pointless to go on. -/
def isFatal : StoreError → Bool
  | storage _ => true
  | _ => false

end StoreError

end Directory
