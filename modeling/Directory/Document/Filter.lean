import Directory.Filter
import Directory.Json.Decoder

/-!
# Filter documents

A filter as JSON is an object with one member, whose key tells the kind of node. The members of an
assertion may stand in an array, in their order, where the reader accepts this short form.
-/

namespace Directory

open Json

namespace Assertion

/-- The members of an assertion. -/
def body : Assertion → Json
  | equality attr value | greaterEq attr value | lessEq attr value | approxMatch attr value =>
    record [("attribute", text attr), ("value", text value)]
  | presence attr => record [("attribute", text attr)]
  | substring attr pattern =>
    record
      [("attribute", text attr), ("initial", nullable text pattern.initial),
       ("any", list text pattern.any), ("final", nullable text pattern.finish)]

/-- The assertion as JSON. -/
def toJson (a : Assertion) : Json := record [(a.kind, a.body)]

/-- Read an attribute and a value. -/
def attrValueDecoder (f : String → String → Assertion) : Decoder Assertion := fun n j => do
  let (n, fields) ← Decoder.fields ["attribute", "value"] n j
  match fields with
  | [attr, value] => return f (← Decoder.required .text n attr) (← Decoder.required .text n value)
  | _ => none

/-- Read the members of a presence assertion. -/
def presenceDecoder : Decoder Assertion := fun n j => do
  let (n, fields) ← Decoder.fields ["attribute"] n j
  match fields with
  | [attr] => return presence (← Decoder.required .text n attr)
  | _ => none

/-- Read the members of a substring assertion. -/
def substringDecoder : Decoder Assertion := fun n j => do
  let (n, fields) ← Decoder.fields ["attribute", "initial", "any", "final"] n j
  match fields with
  | [attr, initial, any, finish] =>
    return substring (← Decoder.required .text n attr) {
      initial := ← Decoder.optional (.orNull .text) none n initial
      any := ← Decoder.optional (.list .text) [] n any
      finish := ← Decoder.optional (.orNull .text) none n finish }
  | _ => none

/-- The tree is an array. -/
def isShort : Json → Bool
  | .array _ => true
  | _ => false

/-- Read the members of an assertion of the given kind, in any form. -/
def anyBodyDecoder (kind : String) : Decoder Assertion :=
  if kind = "equality" then attrValueDecoder equality
  else if kind = "greater_eq" then attrValueDecoder greaterEq
  else if kind = "less_eq" then attrValueDecoder lessEq
  else if kind = "approx_match" then attrValueDecoder approxMatch
  else if kind = "presence" then presenceDecoder
  else if kind = "substring" then substringDecoder
  else fun _ _ => none

/-- Read the members of an assertion of the given kind, in short form only if that is accepted. -/
def bodyDecoder (acceptShort : Bool) (kind : String) : Decoder Assertion := fun n j =>
  if isShort j && !acceptShort then none else anyBodyDecoder kind n j

end Assertion

namespace Filter

mutual

/-- The filter as JSON. -/
def toJson : Filter → Json
  | assertion a => a.toJson
  | and fs => record [("and", .array (toJsons fs))]
  | or fs => record [("or", .array (toJsons fs))]
  | not f => record [("not", f.toJson)]
  termination_by structural f => f

/-- The filters as JSON, one after the other. -/
def toJsons : List Filter → List Json
  | [] => []
  | f :: fs => f.toJson :: toJsons fs
  termination_by structural fs => fs

end

/-- Read a filter, with assertions in short form only if that is accepted. -/
def decoderWith (acceptShort : Bool) : Decoder Filter
  | n + 1, .object [(some kind, j)] =>
    if kind = "not" then (decoderWith acceptShort n j).map not
    else if kind = "and" ∨ kind = "or" then
      match n, j with
      | n + 1, .array items =>
        (items.mapM (decoderWith acceptShort n)).map (if kind = "and" then and else or)
      | _, _ => none
    else (Assertion.bodyDecoder acceptShort kind n j).map assertion
  | _, _ => none
  termination_by structural n => n

/-- Read a filter. -/
def decoder : Decoder Filter := decoderWith true

end Filter

end Directory
