import Directory.Json.Token

/-!
# Reading JSON

The reader walks over the tokens of a text with a stack of the arrays and objects that are still
open. `step` says what each token does to it; a token that cannot come at its place is refused. No
nesting is too deep for the reader.
-/

namespace Directory.Json

/-- An array or object that is still open, the last item or member first. -/
inductive Frame where
  | array (items : List Json)
  /-- An object and the key whose value is being read. -/
  | object (members : List (Option String × Json)) (key : Option String)
  deriving Repr, Inhabited

/-- What has to come next. -/
inductive Expect where
  | value
  /-- The first item of an array, or its end. -/
  | firstItem
  /-- The first key of an object, or its end. -/
  | firstKey
  /-- A further key of an object that has these members. -/
  | key (members : List (Option String × Json))
  /-- The colon behind a key of an object that has these members. -/
  | colon (members : List (Option String × Json)) (key : Option String)
  /-- What may follow a complete value. -/
  | afterValue (j : Json)
  deriving Repr, Inhabited

/-- What the reader has made of the tokens so far. -/
structure State where
  expect : Expect
  stack : List Frame
  deriving Repr, Inhabited

/-- A token where a value has to come. -/
def stepValue (t : Token) (stack : List Frame) : Option State :=
  match t with
  | .atom j => some ⟨.afterValue j, stack⟩
  | .openArray => some ⟨.firstItem, .array [] :: stack⟩
  | .openObject => some ⟨.firstKey, stack⟩
  | _ => none

/-- A token where a key has to come. -/
def stepKey (t : Token) (members : List (Option String × Json)) (stack : List Frame) :
    Option State :=
  match t with
  | .atom (.string key) => some ⟨.colon members key, stack⟩
  | _ => none

/-- A token behind a complete value. -/
def stepAfter (t : Token) (j : Json) (stack : List Frame) : Option State :=
  match t, stack with
  | .comma, .array items :: stack => some ⟨.value, .array (j :: items) :: stack⟩
  | .closeArray, .array items :: stack => some ⟨.afterValue (.array (j :: items).reverse), stack⟩
  | .comma, .object members key :: stack => some ⟨.key ((key, j) :: members), stack⟩
  | .closeObject, .object members key :: stack =>
    some ⟨.afterValue (.object ((key, j) :: members).reverse), stack⟩
  | _, _ => none

/-- One token. -/
def step (s : State) (t : Token) : Option State :=
  match s.expect, t, s.stack with
  | .value, t, stack => stepValue t stack
  | .firstItem, .closeArray, .array _ :: stack => some ⟨.afterValue (.array []), stack⟩
  | .firstItem, t, stack => stepValue t stack
  | .firstKey, .closeObject, stack => some ⟨.afterValue (.object []), stack⟩
  | .firstKey, t, stack => stepKey t [] stack
  | .key members, t, stack => stepKey t members stack
  | .colon members key, .colon, stack => some ⟨.value, .object members key :: stack⟩
  | .colon _ _, _, _ => none
  | .afterValue j, t, stack => stepAfter t j stack

/-- All tokens in turn. -/
def run (s : State) : List Token → Option State
  | [] => some s
  | t :: ts => (step s t).bind fun s => run s ts

/-- The value that the tokens spell, if they spell exactly one. -/
def ofTokens? (ts : List Token) : Option Json :=
  match run ⟨.value, []⟩ ts with
  | some ⟨.afterValue j, []⟩ => some j
  | _ => none

/-- The value that the text spells, if it is a JSON text. -/
def parse (s : String) : Option Json := (lex s.toList).bind ofTokens?

theorem run_append (s : State) (ts us : List Token) :
    run s (ts ++ us) = (run s ts).bind fun s => run s us := by
  induction ts generalizing s with
  | nil => rfl
  | cons t ts ih =>
    simp only [List.cons_append, run]
    cases step s t with
    | none => rfl
    | some s => exact ih s

end Directory.Json
