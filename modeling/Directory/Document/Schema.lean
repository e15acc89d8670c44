import Directory.Json.Decoder
import Directory.Json.Printer
import Directory.Json.Reader
import Directory.Schema.Definition

/-!
# Schema documents

Attribute type definitions as JSON, one record for each, and the registry of a document that holds
a list of them.
-/

namespace Directory

open Json

namespace Definition

/-- The definition as JSON, with everything written out. -/
def toJson (d : Definition) : Json :=
  record
    [("oid", text d.oid), ("names", list text d.names), ("superior", nullable text d.superior),
     ("equality", nullable text d.equality), ("ordering", nullable text d.ordering),
     ("substring", nullable text d.substring)]

/-- Read a definition. -/
def decoder : Decoder Definition := fun n j => do
  let (n, fields) ←
    Decoder.fields ["oid", "names", "superior", "equality", "ordering", "substring"] n j
  match fields with
  | [oid, names, superior, equality, ordering, substring] =>
    return {
      oid := ← Decoder.required .text n oid
      names := ← Decoder.optional (.list .text) [] n names
      superior := ← Decoder.optional (.orNull .text) none n superior
      equality := ← Decoder.optional (.orNull .text) none n equality
      ordering := ← Decoder.optional (.orNull .text) none n ordering
      substring := ← Decoder.optional (.orNull .text) none n substring }
  | _ => none

end Definition

namespace Registry

/-- The registry of the definitions in a JSON text. -/
def ofText (source : String) : Except SchemaError Registry :=
  match (parse source).bind (decode (.list Definition.decoder)) with
  | some ds => ofDefinitions ds
  | none => .error (.malformed "<json>" "Invalid JSON")

/-- The registry of the definitions in a file, whose text or reason for having none is given. What
is wrong with the definitions as a whole is reported of the file. -/
def ofFile (path : String) (content : Except String String) : Except SchemaError Registry :=
  match content with
  | .error reason => .error (.malformed path ("Failed to read file: " ++ reason))
  | .ok source =>
    (ofText source).mapError fun
      | .malformed _ reason => .malformed path reason
      | e => e

end Registry

end Directory
