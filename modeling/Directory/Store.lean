import Directory.Index.AttributeIndex

/-!
# The store of a partition

A store keeps the entries of a partition together with its indexes: those on attributes, and the
presence index, which records for each indexed attribute the entries with a key. Every operation
keeps them in step, and one that fails leaves the store as it was.

* `addIndex` creates an index and fills it from the entries;
* `addEntry` stores a new entry whose descriptions are known and whose values fit;
* `deleteEntry` removes an entry and its keys.
-/

namespace Directory

/-- The OID of the presence index. -/
def presenceOid : String := "1.3.6.1.4.1.18060.0.4.1.2.3"

/-- The entries and the indexes of a partition. -/
structure Store where
  partition : String
  entries : SortedMap EntryId Entry
  /-- The indexes on attributes, in the order of their creation. -/
  indexes : List AttributeIndex
  presence : AttributeIndex
  deriving DecidableEq, Repr, Inhabited

namespace Store

/-- The store of a partition without entries and without indexes on attributes. -/
def new (partition : String) : Store := ⟨partition, .empty, [], .system presenceOid "presence"⟩

/-- The entry with this id. -/
def entry? (s : Store) (id : EntryId) : Option Entry := s.entries.find? id

/-- The entries in the order of their ids. -/
def cursor (s : Store) : Cursor (EntryId × Entry) := .reading s.entries.toList

/-- The index on the attribute that goes by this name or OID. -/
def indexFor? (s : Store) (attr : String) : Option AttributeIndex :=
  s.indexes.find? fun ix => ix.attr.isKnownAs attr

/-- There is an index on the attribute that goes by this name or OID. -/
def hasIndexOn (s : Store) (attr : String) : Bool := (s.indexFor? attr).isSome

/-- The index on the attribute type with exactly this OID. -/
def indexAt? (s : Store) (oid : String) : Option AttributeIndex :=
  s.indexes.find? fun ix => ix.attr.oid == oid

/-- The index that can answer assertions on the type. An index without subtypes would miss the
entries that have a value of a subtype only. -/
def usableIndexFor? (s : Store) (r : Registry) (t : AttributeType) : Option AttributeIndex :=
  (s.indexFor? t.oid).filter fun ix => ix.includesSubtypes || (r.subtypes t).isEmpty

/-- Record in the presence index that the entry has a key for the attribute, if it has one. -/
def markPresent (presence : AttributeIndex) (oid : String) (keys : List NormalValue)
    (id : EntryId) : AttributeIndex :=
  if keys.isEmpty then presence else presence.insertAll [.text oid] id

/-- Create an index on an attribute and fill it from the entries. -/
def addIndex (s : Store) (r : Registry) (attr : String) (includesSubtypes : Bool) :
    Except StoreError Store := do
  let t ← (r.resolve attr).mapError .schema
  if (s.indexFor? t.oid).isSome then throw (.duplicateIndex t.name)
  let ix ← AttributeIndex.create r t includesSubtypes
  let keyed ← s.entries.toList.mapM fun (id, e) => do
    let keys ← (ix.keysFor r e).mapError .schema
    return (id, keys)
  return { s with
    indexes := s.indexes ++ [keyed.foldl (fun ix (id, keys) => ix.insertAll keys id) ix]
    presence := keyed.foldl (fun p (id, keys) => markPresent p t.oid keys id) s.presence }

/-- Every description of the entry is known, and every value fits its own attribute. -/
def checkValues (r : Registry) (e : Entry) : Except SchemaError Unit :=
  e.attributes.toList.forM fun (description, raws) => do
    let t ← r.resolve description
    match t.equality with
    | none => return ()
    | some rule => raws.forM fun raw => do let _ ← rule.normalize raw

/-- Store a new entry. -/
def addEntry (s : Store) (r : Registry) (e : Entry) : Except StoreError Store := do
  if s.entries.contains e.id then throw (.duplicateEntry e.id)
  (checkValues r e).mapError .schema
  let keyed ← s.indexes.mapM fun ix => do
    let keys ← (ix.keysFor r e).mapError .schema
    return (ix, keys)
  return { s with
    entries := s.entries.insert e.id e
    indexes := keyed.map fun (ix, keys) => ix.insertAll keys e.id
    presence := keyed.foldl (fun p (ix, keys) => markPresent p ix.attr.oid keys e.id) s.presence }

/-- Remove an entry, and return it if it was there. -/
def deleteEntry (s : Store) (id : EntryId) : Option Entry × Store :=
  (s.entry? id,
    { s with
      entries := s.entries.erase id
      indexes := s.indexes.map fun ix => ix.removeId id
      presence := s.presence.removeId id })

end Store

end Directory
