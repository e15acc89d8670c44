import Directory.Index.Cursor
import Directory.Index.Postings
import Directory.Schema.Registry
import Directory.Store.Error

/-!
# Attribute indexes

An index on an attribute type holds the values of that type, and of its subtypes if asked to, as
keys under the type's equality rule. Its queries come in two directions: from keys to the entries
that have them, and from an entry to its keys.
-/

namespace Directory

/-- An index on an attribute type. -/
structure AttributeIndex where
  attr : AttributeType
  rule : MatchingRule
  includesSubtypes : Bool
  /-- The OIDs of the types whose values are indexed. -/
  covered : List String
  postings : Postings
  deriving DecidableEq, Repr, Inhabited

namespace AttributeIndex

/-- An empty index on the type, for which the type needs an equality rule. -/
def create (r : Registry) (t : AttributeType) (includesSubtypes : Bool) :
    Except StoreError AttributeIndex :=
  match t.equality with
  | none => .error (.notIndexable t.name)
  | some rule =>
    let subtypes := if includesSubtypes then r.subtypes t else []
    .ok ⟨t, rule, includesSubtypes, t.oid :: subtypes.map AttributeType.oid, .empty⟩

/-- An empty index with keys of its own, under an OID that belongs to no schema. -/
def system (oid name : String) : AttributeIndex :=
  let rule := MatchingRule.octetStringMatch
  ⟨{ oid, names := [name], equality := some rule }, rule, false, [oid], .empty⟩

/-- Values of the type with this OID are indexed. -/
def covers (ix : AttributeIndex) (oid : String) : Bool := ix.covered.contains oid

/-- The key of a raw value. -/
def normalize (ix : AttributeIndex) (raw : String) : Except SchemaError NormalValue :=
  ix.rule.normalize raw

/-- Give an entry several keys. -/
def insertAll (ix : AttributeIndex) (keys : List NormalValue) (id : EntryId) : AttributeIndex :=
  { ix with postings := ix.postings.insertAll keys id }

/-- Take all keys of an entry away. -/
def removeId (ix : AttributeIndex) (id : EntryId) : AttributeIndex :=
  { ix with postings := ix.postings.removeId id }

/-- The keys that an entry contributes to the index. -/
def keysFor (ix : AttributeIndex) (r : Registry) (e : Entry) :
    Except SchemaError (List NormalValue) := do
  let parts ← e.attributes.toList.mapM fun (description, raws) => do
    let t ← r.resolve description
    if ix.covers t.oid then raws.mapM ix.normalize else return []
  return parts.flatten

/-! ### From keys to entries -/

/-- The ids of the entries with exactly this key. -/
def idsWith (ix : AttributeIndex) (key : NormalValue) : SortedSet EntryId :=
  idsOf (ix.postings.within key key)

/-- The ids of the entries with a key that is at least `lower`. -/
def idsAtLeast (ix : AttributeIndex) (lower : NormalValue) : SortedSet EntryId :=
  idsOf (ix.postings.startingAt lower)

/-- The ids of the entries with a key that is at most `upper`. -/
def idsAtMost (ix : AttributeIndex) (upper : NormalValue) : SortedSet EntryId :=
  idsOf (ix.postings.endingAt upper)

/-- The ids of the entries with a key between the bounds; none if the bounds are inverted. -/
def idsBetween (ix : AttributeIndex) (lower upper : NormalValue) : SortedSet EntryId :=
  if (ix.rule.compare lower upper).isGT then .empty else idsOf (ix.postings.within lower upper)

/-- The number of pairs of a key and an entry. -/
def size (ix : AttributeIndex) : Nat := ix.postings.size

/-- The number of entries with exactly this key. -/
def countOf (ix : AttributeIndex) (key : NormalValue) : Nat := (ix.idsWith key).size

/-- The number of pairs with a key that is at least `lower`. -/
def countAtLeast (ix : AttributeIndex) (lower : NormalValue) : Nat :=
  (ix.postings.startingAt lower).length

/-- The number of pairs with a key that is at most `upper`. -/
def countAtMost (ix : AttributeIndex) (upper : NormalValue) : Nat :=
  (ix.postings.endingAt upper).length

/-- The pairs by key. -/
def cursor (ix : AttributeIndex) : Cursor (NormalValue × EntryId) :=
  .reading ix.postings.forward.toList

/-- The pairs by key, from the first key that is at least `lower`. -/
def cursorFrom (ix : AttributeIndex) (lower : NormalValue) : Cursor (NormalValue × EntryId) :=
  .reading (ix.postings.startingAt lower)

/-! ### From an entry to its keys -/

/-- The entry has this key. -/
def holds (ix : AttributeIndex) (key : NormalValue) (id : EntryId) : Bool :=
  ix.postings.forward.contains (key, id)

/-- The keys of the entry, ascending. -/
def keysOf (ix : AttributeIndex) (id : EntryId) : List NormalValue := ix.postings.keysOf id

/-- The entry has a key. -/
def hasKeys (ix : AttributeIndex) (id : EntryId) : Bool := !(ix.keysOf id).isEmpty

/-- The entry has a key that is at least `lower`. -/
def hasKeyAtLeast (ix : AttributeIndex) (id : EntryId) (lower : NormalValue) : Bool :=
  (ix.keysOf id).any fun key => (ix.rule.compare key lower).isGE

/-- The entry has a key that is at most `upper`. -/
def hasKeyAtMost (ix : AttributeIndex) (id : EntryId) (upper : NormalValue) : Bool :=
  (ix.keysOf id).any fun key => (ix.rule.compare key upper).isLE

/-- The pairs by entry. -/
def reverseCursor (ix : AttributeIndex) : Cursor (EntryId × NormalValue) :=
  .reading ix.postings.reverse.toList

end AttributeIndex

end Directory
