import Directory.Schema.AttributeType

/-!
# The registry of attribute types

The types of a schema in the order of their registration. A type is registered after its superior,
from which it inherits the rules that it does not declare, and under identifiers that no other type
uses. Hence the list determines everything else:

* `find?` and `resolve` look a type up by name or OID;
* `subtypes` lists the types below a given one, parents before children and siblings in the order
  of registration. A subtype always stands later in the list, so one walk down the list is enough.
-/

namespace Directory

/-- Attribute types in registration order. -/
structure Registry where
  types : List AttributeType
  deriving DecidableEq, Repr, Inhabited

namespace Registry

/-- The registry without types. -/
def empty : Registry := ⟨[]⟩

/-- The type with exactly this identifier. -/
def find? (r : Registry) (id : String) : Option AttributeType :=
  r.types.find? fun t => t.identifiers.contains id

/-- The identifier is taken. -/
def uses (r : Registry) (id : String) : Bool := (r.find? id).isSome

/-- The type that a name or OID stands for: names disregard case, an OID may be as written. -/
def lookup? (r : Registry) (name : String) : Option AttributeType :=
  (r.find? (lowercase name)).or (r.find? name)

/-- The type that a name or OID stands for, or an error that says that there is none. -/
def resolve (r : Registry) (name : String) : Except SchemaError AttributeType :=
  match r.lookup? name with
  | some t => .ok t
  | none => .error (.unknownAttribute name)

/-- The type with the rules of its superior where it declares none. -/
def inherit (t sup : AttributeType) : AttributeType :=
  { t with
    superior := some sup.oid
    equality := t.equality.or sup.equality
    ordering := t.ordering.or sup.ordering
    substring := t.substring.or sup.substring }

/-- Attach the type to its superior, if it names one. -/
def attach (r : Registry) (t : AttributeType) : Except SchemaError AttributeType :=
  match t.superior with
  | none => .ok t
  | some name =>
    match r.lookup? name with
    | some sup => .ok (inherit t sup)
    | none => .error (.malformed t.oid ("superior '" ++ name ++ "' is not registered"))

/-- Register a type and return it as registered. Its names are lowercased first. -/
def register (r : Registry) (t : AttributeType) : Except SchemaError (AttributeType × Registry) :=
  let t := { t with names := t.names.map lowercase }
  if r.uses t.oid then .error (.malformed t.oid "attribute type registered twice")
  else
    match t.names.find? r.uses with
    | some name => .error (.malformed t.oid ("name '" ++ name ++ "' already in use"))
    | none => (r.attach t).map fun t => (t, ⟨r.types ++ [t]⟩)

/-- Among types registered in this order, those below the type with the given OID. -/
def below (oid : String) : List AttributeType → List AttributeType
  | [] => []
  | t :: ts => if t.superior = some oid then t :: below t.oid ts ++ below oid ts else below oid ts

/-- The strict subtypes of a type, in preorder. -/
def subtypes (r : Registry) (t : AttributeType) : List AttributeType := below t.oid r.types

/-- The first type is a strict subtype of the second. -/
def isSubtype (r : Registry) (t ancestor : AttributeType) : Bool :=
  (r.subtypes ancestor).any fun s => s.oid == t.oid

@[simp] theorem below_nil (oid : String) : below oid [] = [] := rfl

theorem below_cons (oid : String) (t : AttributeType) (ts : List AttributeType) :
    below oid (t :: ts) =
      if t.superior = some oid then t :: below t.oid ts ++ below oid ts else below oid ts := rfl

/-- Only registered types are subtypes. -/
theorem below_subset (oid : String) (ts : List AttributeType) : below oid ts ⊆ ts := by
  induction ts generalizing oid with
  | nil => simp
  | cons t ts ih =>
    intro s hs
    rw [below_cons] at hs
    split at hs
    · simp only [List.cons_append, List.mem_cons, List.mem_append] at hs ⊢
      rcases hs with h | h | h
      · exact .inl h
      · exact .inr (ih _ h)
      · exact .inr (ih _ h)
    · exact List.mem_cons_of_mem _ (ih _ hs)

end Registry

end Directory
