import Directory.Partition.Error
import Directory.Schema.Definition
import Directory.Store

/-!
# Partitions

A partition is configured by its id, its indexes and a default size limit. A fixture adds the
schema and the entries; opening it gives the registry and the store.
-/

namespace Directory

/-- An index that a partition is to have. -/
structure IndexConfig where
  attr : String
  includesSubtypes : Bool := false
  deriving DecidableEq, Repr, Inhabited

/-- The configuration of a partition. -/
structure PartitionConfig where
  id : String
  indexes : List IndexConfig := []
  sizeLimit : Option UInt64 := none
  deriving DecidableEq, Repr, Inhabited

namespace PartitionConfig

/-- Nothing but blanks. -/
def isBlankText (s : String) : Bool := (Text.trim s.toList).isEmpty

/-- The id and the indexed attributes have to be given. -/
def validate (p : PartitionConfig) : Except ConfigError Unit :=
  if isBlankText p.id then .error (.invalid "partition id must not be empty")
  else if p.indexes.any fun ix => isBlankText ix.attr then
    .error (.invalid "index attribute must not be empty")
  else .ok ()

/-- The empty store with the configured indexes. -/
def openStore (p : PartitionConfig) (r : Registry) : Except ConfigError Store := do
  p.validate
  p.indexes.foldlM
    (fun s ix => (s.addIndex r ix.attr ix.includesSubtypes).mapError .store) (.new p.id)

end PartitionConfig

/-- A partition with its schema and its entries. -/
structure Fixture where
  schema : List Definition
  partition : PartitionConfig
  entries : List Entry := []
  deriving DecidableEq, Repr, Inhabited

/-- The registry and the store of a fixture. -/
def Fixture.load (f : Fixture) : Except ConfigError (Registry × Store) := do
  let r ← (Registry.ofDefinitions f.schema).mapError .schema
  let s ← f.partition.openStore r
  let s ← f.entries.foldlM (fun s e => (s.addEntry r e).mapError .store) s
  return (r, s)

end Directory
