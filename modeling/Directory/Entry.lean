import Directory.Schema.AttributeType
import Directory.Sorted.Map

/-!
# Entries

An entry has an id, a distinguished name and raw values under attribute descriptions. Descriptions
are kept in lowercase and in the order of their code points; the values of a description keep the
order in which they were added.
-/

namespace Directory

/-- The id of an entry, a word of 64 bits. -/
abbrev EntryId := UInt64

/-- An entry of the directory. -/
structure Entry where
  id : EntryId
  dn : String
  attributes : SortedMap String (List String)
  deriving DecidableEq, Repr, Inhabited

namespace Entry

/-- An entry without attributes. -/
def new (id : EntryId) (dn : String) : Entry := ⟨id, dn, .empty⟩

/-- Add values after those that the description has already. -/
def addValues (e : Entry) (description : String) (raws : List String) : Entry :=
  { e with attributes := e.attributes.alter (lowercase description) fun old => old.getD [] ++ raws }

/-- Add one value. -/
def addValue (e : Entry) (description raw : String) : Entry := e.addValues description [raw]

/-- The entry with the given attributes. Descriptions that differ only in case are merged in the
order in which they are listed. -/
def ofAttributes (id : EntryId) (dn : String) (attributes : List (String × List String)) : Entry :=
  attributes.foldl (fun e a => e.addValues a.1 a.2) (new id dn)

/-- The values under the first of the type's identifiers that the entry uses as a description. -/
def valuesOf (e : Entry) (t : AttributeType) : Option (List String) :=
  t.identifiers.findSome? fun id => e.attributes.find? (lowercase id)

/-- The entry has a value of the type. -/
def has (e : Entry) (t : AttributeType) : Bool :=
  match e.valuesOf t with
  | some (_ :: _) => true
  | _ => false

end Entry

end Directory
