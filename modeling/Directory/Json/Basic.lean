import Directory.Sorted.Map

/-!
# JSON trees

A tree keeps what a JSON text says before anyone asks what it is for: members in their order, also
those with repeated keys, numbers that are no plain integers as they were written, and strings that
have no text because an escape in them names half of a surrogate pair.
-/

namespace Directory

/-- A JSON value as it stands in a text. -/
inductive Json where
  | null
  | bool (b : Bool)
  /-- A number written as an integer, `-0` excepted. -/
  | integer (n : Int)
  /-- Any other number, as it is written. -/
  | decimal (literal : String)
  /-- A string, with its text unless it names half of a surrogate pair. -/
  | string (text : Option String)
  | array (items : List Json)
  | object (members : List (Option String × Json))
  deriving Repr, Inhabited

namespace Json

/-- The string with this text. -/
def text (s : String) : Json := .string (some s)

/-- The number. -/
def natural (n : Nat) : Json := .integer n

/-- The value, or `null` for none. -/
def nullable {α : Type} (f : α → Json) : Option α → Json
  | none => .null
  | some a => f a

/-- The array of the items. -/
def list {α : Type} (f : α → Json) (as : List α) : Json := .array (as.map f)

/-- The object with these members. -/
def record (members : List (String × Json)) : Json :=
  .object (members.map fun m => (some m.1, m.2))

mutual

/-- The number of arrays and objects that stand one inside the other. -/
def depth : Json → Nat
  | .array items => depthItems items + 1
  | .object members => depthMembers members + 1
  | _ => 0
  termination_by structural j => j

/-- The greatest depth of an item. -/
def depthItems : List Json → Nat
  | [] => 0
  | j :: js => max j.depth (depthItems js)
  termination_by structural js => js

/-- The greatest depth of a member. -/
def depthMembers : List (Option String × Json) → Nat
  | [] => 0
  | (_, j) :: ms => max j.depth (depthMembers ms)
  termination_by structural ms => ms

end

/-- The texts of the keys, if all of them have one. -/
def namedMembers? : List (Option String × Json) → Option (List (String × Json))
  | [] => some []
  | (some key, j) :: ms => (namedMembers? ms).map ((key, j) :: ·)
  | (none, _) :: _ => none

/-- The bindings of a map as an object. -/
def ofMap {β : Type} (f : β → Json) (m : SortedMap String β) : Json :=
  record (m.toList.map fun b => (b.1, f b.2))

end Json

end Directory
