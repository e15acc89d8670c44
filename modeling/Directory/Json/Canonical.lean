import Directory.Json.Basic
import Directory.Json.Precision

/-!
# Canonical trees

In a canonical tree the members of an object stand in the order of their keys, and of repeated keys
only the last one is left. `sorted` brings any tree into this form.

Some readers take in a JSON text as a whole before they look at it. Then every part counts: nothing
may nest too deep, every string needs a text, and every number has to be within the range of double
precision. `isSoundWithin` says that a tree is fit for that, and `canonical?` is what they take in.
-/

namespace Directory.Json

/-! ### Order -/

mutual

/-- The tree in canonical form. Members whose keys have no text cannot be ordered and fall away. -/
def sorted : Json → Json
  | .array items => .array (sortedItems items)
  | .object members => ofMap id (.ofList (sortedMembers members))
  | j => j
  termination_by structural j => j

/-- The items in canonical form. -/
def sortedItems : List Json → List Json
  | [] => []
  | j :: js => sorted j :: sortedItems js
  termination_by structural js => js

/-- The members in canonical form, still in their places and repeated ones included. -/
def sortedMembers : List (Option String × Json) → List (String × Json)
  | [] => []
  | (some key, j) :: ms => (key, sorted j) :: sortedMembers ms
  | (none, _) :: ms => sortedMembers ms
  termination_by structural ms => ms

end

/-! ### Soundness -/

mutual

/-- The tree has no part that is unfit to be taken in, within an allowance of nesting. -/
def isSoundWithin (n : Nat) : Json → Bool
  | .integer k => (Scaled.ofInteger k).isFinite
  | .decimal literal => (Scaled.ofLiteral literal).isFinite
  | .string s => s.isSome
  | .array items => n != 0 && areItemsSound (n - 1) items
  | .object members => n != 0 && areMembersSound (n - 1) members
  | _ => true
  termination_by structural j => j

/-- The items have no unfit part. -/
def areItemsSound (n : Nat) : List Json → Bool
  | [] => true
  | j :: js => isSoundWithin n j && areItemsSound n js
  termination_by structural js => js

/-- The members have no unfit part, keys included. -/
def areMembersSound (n : Nat) : List (Option String × Json) → Bool
  | [] => true
  | (key, j) :: ms => key.isSome && isSoundWithin n j && areMembersSound n ms
  termination_by structural ms => ms

end

/-- The canonical form of a tree that can be taken in as a whole. -/
def canonical? (j : Json) : Option Json := if j.isSoundWithin 127 then some j.sorted else none

end Directory.Json
