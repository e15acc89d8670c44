import Directory.Entry
import Directory.Json.Decoder

/-!
# Entry documents

Entries as JSON. The attributes are an object from descriptions to lists of values; descriptions
that differ only in case are merged in the order of their code points.
-/

namespace Directory

open Json

namespace Entry

/-- The entry as JSON. -/
def toJson (e : Entry) : Json :=
  record
    [("id", natural e.id.toNat), ("dn", text e.dn), ("attributes", ofMap (list text) e.attributes)]

/-- The entry as it is shown to those who search: every object is put together member by member, and
has its members in the order of their keys. -/
def shown (e : Entry) : Json :=
  let attributes := SortedMap.ofList (e.attributes.toList.map fun b => (b.1, list text b.2))
  ofMap (fun j => j) (.ofList
    [("id", natural e.id.toNat), ("dn", text e.dn),
     ("attributes", ofMap (fun j => j) attributes)])

/-- The entry with attributes as they are written in a document. -/
def ofDocument (id : EntryId) (dn : String) (attributes : SortedMap String (List String)) : Entry :=
  ofAttributes id dn attributes.toList

/-- Read an entry. -/
def decoder : Decoder Entry := fun n j => do
  let (n, fields) ← Decoder.fields ["id", "dn", "attributes"] n j
  match fields with
  | [id, dn, attributes] =>
    return ofDocument
      (← Decoder.required .word n id)
      (← Decoder.optional .text "" n dn)
      (← Decoder.optional (.keyed (.list .text)) .empty n attributes)
  | _ => none

end Entry

end Directory
