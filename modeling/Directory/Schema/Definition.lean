import Directory.Schema.Registry

/-!
# Attribute type definitions

A definition names its rules and its superior. `Definition.resolve` looks the rules up, and
`Registry.ofDefinitions` registers definitions given in any order: it passes over those still
waiting, registers each one whose superior is there, and stops when a pass registers none.
-/

namespace Directory

/-- An attribute type as it is written down. -/
structure Definition where
  oid : String
  names : List String := []
  superior : Option String := none
  equality : Option String := none
  ordering : Option String := none
  substring : Option String := none
  deriving DecidableEq, Repr, Inhabited

namespace Definition

/-- The rule that the attribute type with this OID asks for, if it asks for one. -/
def resolveRule (oid : String) : Option String → Except SchemaError (Option MatchingRule)
  | none => .ok none
  | some name =>
    match MatchingRule.named? name with
    | some rule => .ok (some rule)
    | none => .error (.unknownRule oid name)

/-- The attribute type with its rules looked up: equality first, then ordering, then substring. -/
def resolve (d : Definition) : Except SchemaError AttributeType :=
  if Text.trim d.oid.toList = [] then .error (.malformed "<definition>" "empty OID")
  else do
    let equality ← resolveRule d.oid d.equality
    let ordering ← resolveRule d.oid d.ordering
    let substring ← resolveRule d.oid d.substring
    return { oid := d.oid, names := d.names, superior := d.superior, equality, ordering, substring }

end Definition

namespace Registry

/-- The superior of the definition, if it has one, is registered. -/
def admits (r : Registry) (d : Definition) : Bool :=
  match d.superior with
  | none => true
  | some name => (r.lookup? name).isSome

/-- Register a definition. -/
def define (r : Registry) (d : Definition) : Except SchemaError Registry := do
  let t ← d.resolve
  let (_, r) ← r.register t
  return r

/-- One pass: register the definitions that are ready and return those that still wait. -/
def pass (r : Registry) : List Definition → Except SchemaError (Registry × List Definition)
  | [] => .ok (r, [])
  | d :: ds =>
    if r.admits d then do
      let r ← r.define d
      r.pass ds
    else do
      let (r, waiting) ← r.pass ds
      return (r, d :: waiting)

/-- The definitions wait for superiors that never come. -/
def unresolvable (ds : List Definition) : SchemaError :=
  .malformed "<definitions>"
    ("unresolvable superiors for " ++ String.intercalate ", " (ds.map Definition.oid))

/-- Register the waiting definitions, pass after pass. -/
def defineAll (r : Registry) (waiting : List Definition) : Except SchemaError Registry :=
  if waiting.isEmpty then .ok r
  else
    match r.pass waiting with
    | .error e => .error e
    | .ok (r, rest) =>
      if rest.length < waiting.length then r.defineAll rest else .error (unresolvable rest)
  termination_by waiting.length

/-- The registry of the definitions, which may come in any order. -/
def ofDefinitions (ds : List Definition) : Except SchemaError Registry := empty.defineAll ds

end Registry

end Directory
