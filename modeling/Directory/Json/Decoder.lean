import Directory.Json.Basic

/-!
# Decoding JSON trees

A decoder makes a value of a type out of a tree, or refuses it. It is told how many arrays and
objects may still stand one inside the other; parts of the tree that it does not look at may nest
as they like. A record may be written as an object, whose unknown members are ignored and whose
known members may not repeat, or as an array of its fields in their order.
-/

namespace Directory.Json

/-- A reading of trees with a given allowance of nesting. -/
abbrev Decoder (α : Type) := Nat → Json → Option α

/-- The nesting that documents are allowed. -/
def nestingLimit : Nat := 127

namespace Decoder

variable {α : Type}

/-- A string that has a text. -/
def text : Decoder String
  | _, .string s => s
  | _, _ => none

/-- A truth value. -/
def flag : Decoder Bool
  | _, .bool b => some b
  | _, _ => none

/-- An integer of 64 bits without a sign. -/
def word : Decoder UInt64
  | _, .integer n => if 0 ≤ n ∧ n < UInt64.size then some (UInt64.ofNat n.toNat) else none
  | _, _ => none

/-- `null`, or what the decoder accepts. -/
def orNull (d : Decoder α) : Decoder (Option α)
  | _, .null => some none
  | n, j => (d n j).map some

/-- An array. -/
def list (d : Decoder α) : Decoder (List α)
  | n + 1, .array items => items.mapM (d n)
  | _, _ => none

/-- An object whose keys are free. Of repeated keys the last one counts. -/
def keyed (d : Decoder α) : Decoder (SortedMap String α)
  | n + 1, .object members => do
    let members ← namedMembers? members
    let bindings ← members.mapM fun m => (d n m.2).map (m.1, ·)
    return .ofList bindings
  | _, _ => none

/-- The values of the known members of an object, by field; none may come twice. -/
def fieldsOf (names : List String) (members : List (String × Json)) : Option (List (Option Json)) :=
  names.mapM fun name =>
    match members.filter fun m => m.1 == name with
    | [] => some none
    | [m] => some (some m.2)
    | _ => none

/-- The fields of a record, in their order, as far as they are there, and the nesting that is
allowed inside them. -/
def fields (names : List String) : Decoder (Nat × List (Option Json))
  | n + 1, .object members => do
    let members ← namedMembers? members
    let values ← fieldsOf names members
    return (n, values)
  | n + 1, .array items =>
    if items.length ≤ names.length then
      some (n, items.map some ++ List.replicate (names.length - items.length) none)
    else none
  | _, _ => none

/-- A field that has to be there. -/
def required (d : Decoder α) (n : Nat) (field : Option Json) : Option α := field.bind (d n)

/-- A field that has a default. -/
def optional (d : Decoder α) (default : α) (n : Nat) : Option Json → Option α
  | none => some default
  | some j => d n j

end Decoder

/-- Decode a tree with the nesting that documents are allowed. -/
def decode {α : Type} (d : Decoder α) (j : Json) : Option α := d nestingLimit j

end Directory.Json
