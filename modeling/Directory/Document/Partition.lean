import Directory.Document.Entry
import Directory.Document.Schema
import Directory.Partition

/-!
# Partition and fixture documents

The configuration of a partition and whole fixtures as JSON, read from texts and from files.
-/

namespace Directory

open Json

namespace IndexConfig

/-- The index configuration as JSON. -/
def toJson (c : IndexConfig) : Json :=
  record [("attribute", text c.attr), ("include_descendants", .bool c.includesSubtypes)]

/-- Read an index configuration. -/
def decoder : Decoder IndexConfig := fun n j => do
  let (n, fields) ← Decoder.fields ["attribute", "include_descendants"] n j
  match fields with
  | [attr, includesSubtypes] =>
    return {
      attr := ← Decoder.required .text n attr
      includesSubtypes := ← Decoder.optional .flag false n includesSubtypes }
  | _ => none

end IndexConfig

/-- A size limit as JSON. -/
def sizeLimitToJson : Option UInt64 → Json := nullable fun limit => natural limit.toNat

namespace PartitionConfig

/-- The configuration as JSON. -/
def toJson (p : PartitionConfig) : Json :=
  record
    [("id", text p.id), ("indexes", list IndexConfig.toJson p.indexes),
     ("size_limit", sizeLimitToJson p.sizeLimit)]

/-- Read a configuration. -/
def decoder : Decoder PartitionConfig := fun n j => do
  let (n, fields) ← Decoder.fields ["id", "indexes", "size_limit"] n j
  match fields with
  | [id, indexes, sizeLimit] =>
    return {
      id := ← Decoder.required .text n id
      indexes := ← Decoder.optional (.list IndexConfig.decoder) [] n indexes
      sizeLimit := ← Decoder.optional (.orNull .word) none n sizeLimit }
  | _ => none

end PartitionConfig

namespace Fixture

/-- The fixture as JSON. -/
def toJson (f : Fixture) : Json :=
  record
    [("schema", list Definition.toJson f.schema), ("partition", f.partition.toJson),
     ("entries", list Entry.toJson f.entries)]

/-- Read a fixture. -/
def decoder : Decoder Fixture := fun n j => do
  let (n, fields) ← Decoder.fields ["schema", "partition", "entries"] n j
  match fields with
  | [schema, partition, entries] =>
    return {
      schema := ← Decoder.required (.list Definition.decoder) n schema
      partition := ← Decoder.required PartitionConfig.decoder n partition
      entries := ← Decoder.optional (.list Entry.decoder) [] n entries }
  | _ => none

end Fixture

/-- The document in a text that was found at a path. -/
def documentAt {α : Type} (d : Decoder α) (path source : String) : Except ConfigError α :=
  match (parse source).bind (decode d) with
  | some a => .ok a
  | none => .error (.parse path "not a document of the expected form")

/-- The document in a file, whose text or reason for having none is given. -/
def documentInFile {α : Type} (d : Decoder α) (path : String) (content : Except String String) :
    Except ConfigError α :=
  match content with
  | .ok source => documentAt d path source
  | .error reason => .error (.io path reason)

/-- The partition configuration in a file, which has to make sense. -/
def PartitionConfig.ofFile (path : String) (content : Except String String) :
    Except ConfigError PartitionConfig := do
  let p ← documentInFile decoder path content
  p.validate
  return p

/-- The fixture in a file. -/
def Fixture.ofFile (path : String) (content : Except String String) : Except ConfigError Fixture :=
  documentInFile decoder path content

/-- The fixture in a text. -/
def Fixture.ofText (source : String) : Except ConfigError Fixture :=
  documentAt decoder "<json>" source

end Directory
