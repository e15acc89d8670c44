import Directory.Proofs.Definitions
import Directory.Proofs.Registration
import Directory.Proofs.Sorted

/-!
# Registration in tables

A registry can be kept in three tables: the types under their identifiers, the OIDs of the direct
subtypes of each type, and the OIDs in the order of registration. `TableEdit.register` registers a
type by filling in one place after the other, between checks that can fail. What has been filled in
before a failure stays.

* `Registry.Tabulated` says that the tables have what the list of a registry has;
* `TableEdit.runOn_register` says that a registration in the tables ends as it does on the list,
  and that one that fails has not changed a single place;
* `Registry.tabulated_attemptAll` puts this together for any history of registrations.
-/

namespace Directory

/-- A registry as tables. -/
structure RegistryTables where
  /-- The types under their identifiers. -/
  byId : SortedMap String AttributeType
  /-- The OIDs of the direct subtypes, under the OID of their superior. -/
  children : SortedMap String (List String)
  /-- The OIDs of all types. -/
  order : List String
  deriving DecidableEq, Repr, Inhabited

namespace RegistryTables

/-- The tables without types. -/
def empty : RegistryTables := ⟨.empty, .empty, []⟩

/-- The type that a name or OID stands for. -/
def lookup? (b : RegistryTables) (name : String) : Option AttributeType :=
  (b.byId.find? (lowercase name)).or (b.byId.find? name)

/-- The OIDs of the direct subtypes of the type with this OID. -/
def childrenOf (b : RegistryTables) (oid : String) : List String :=
  (b.children.find? oid).getD []

/-- The tables with one more direct subtype. -/
def addChild (b : RegistryTables) (sup oid : String) : RegistryTables :=
  { b with children := b.children.alter sup fun oids => oids.getD [] ++ [oid] }

/-- The tables with the type under this identifier. -/
def enter (t : AttributeType) (b : RegistryTables) (id : String) : RegistryTables :=
  { b with byId := b.byId.insert id t }

/-- The tables with one more OID in the order. -/
def append (b : RegistryTables) (oid : String) : RegistryTables :=
  { b with order := b.order ++ [oid] }

end RegistryTables

/-- A computation that fills in tables, and that can fail on the way. -/
abbrev TableEdit : Type → Type := ExceptT SchemaError (StateM RegistryTables)

namespace TableEdit

variable {α β : Type}

/-- The result or the failure, and the tables as they are then. -/
def runOn (x : TableEdit α) (b : RegistryTables) : Except SchemaError α × RegistryTables :=
  (ExceptT.run x).run b

/-- Fill in a place. -/
def change (f : RegistryTables → RegistryTables) : TableEdit PUnit := modify f

/-- Fail if the identifier is taken. -/
def refuseTaken (id : String) (err : SchemaError) : TableEdit PUnit := do
  if (← get).byId.contains id then throw err

/-- Attach the type to its superior, if it names one, and the superior to the type. -/
def attach (t : AttributeType) : TableEdit AttributeType := do
  match t.superior with
  | none => return t
  | some name =>
    match (← get).lookup? name with
    | none => throw (.malformed t.oid ("superior '" ++ name ++ "' is not registered"))
    | some sup =>
      change fun b => b.addChild sup.oid t.oid
      return Registry.inherit t sup

/-- Register a type and return it as registered. -/
def register (t : AttributeType) : TableEdit AttributeType := do
  let t := t.inLowercase
  refuseTaken t.oid (.malformed t.oid "attribute type registered twice")
  t.names.forM fun name =>
    refuseTaken name (.malformed t.oid ("name '" ++ name ++ "' already in use"))
  let t ← attach t
  t.identifiers.forM fun id => change fun b => b.enter t id
  change fun b => b.append t.oid
  return t

end TableEdit

namespace RegistryTables

/-- The tables after the attempt to register a type. -/
def attempt (b : RegistryTables) (t : AttributeType) : RegistryTables :=
  ((TableEdit.register t).runOn b).2

/-- The tables after several attempts. -/
def attemptAll (b : RegistryTables) (ts : List AttributeType) : RegistryTables :=
  ts.foldl attempt b

end RegistryTables

namespace Registry

/-- The types with this superior, in the order of registration. -/
def childrenOf (r : Registry) (oid : String) : List AttributeType :=
  r.types.filter fun t => t.superior = some oid

/-- The tables have what the registry lists. -/
structure Tabulated (r : Registry) (b : RegistryTables) : Prop where
  byId : ∀ id, b.byId.find? id = r.find? id
  children : ∀ oid, b.childrenOf oid = (r.childrenOf oid).map AttributeType.oid
  order : b.order = r.types.map AttributeType.oid

variable {r : Registry} {b : RegistryTables} {t : AttributeType}

theorem tabulated_empty : Registry.empty.Tabulated .empty where
  byId _ := rfl
  children _ := rfl
  order := rfl

theorem Tabulated.lookup?_eq (h : r.Tabulated b) (name : String) :
    b.lookup? name = r.lookup? name := by
  rw [RegistryTables.lookup?, h.byId, h.byId, lookup?]

theorem Tabulated.contains_eq (h : r.Tabulated b) (id : String) :
    b.byId.contains id = r.uses id := by
  rw [SortedMap.contains, h.byId, uses]

end Registry

/-! ### One more type -/

namespace RegistryTables

variable {b : RegistryTables} {t : AttributeType}

/-- The tables with the type among the direct subtypes of its superior, if it has one. -/
def underSuperior (b : RegistryTables) (t : AttributeType) : RegistryTables :=
  match t.superior with
  | none => b
  | some sup => b.addChild sup t.oid

/-- The tables with one more type in all places. -/
def extend (b : RegistryTables) (t : AttributeType) : RegistryTables :=
  (t.identifiers.foldl (enter t) (b.underSuperior t)).append t.oid

theorem foldl_enter (ids : List String) :
    ids.foldl (enter t) b =
      { b with byId := ids.foldl (fun byId id => byId.insert id t) b.byId } := by
  induction ids generalizing b with
  | nil => rfl
  | cons id ids ih =>
    rw [List.foldl_cons, ih]
    rfl

theorem find?_foldl_insert {byId : SortedMap String AttributeType} {ids : List String}
    {id : String} :
    (ids.foldl (fun byId id => byId.insert id t) byId).find? id =
      if id ∈ ids then some t else byId.find? id := by
  induction ids generalizing byId with
  | nil => simp
  | cons i ids ih =>
    rw [List.foldl_cons, ih, SortedMap.find?_insert]
    by_cases hi : id = i <;> simp [hi]

theorem byId_underSuperior : (b.underSuperior t).byId = b.byId := by
  rw [underSuperior]
  cases t.superior <;> rfl

theorem order_underSuperior : (b.underSuperior t).order = b.order := by
  rw [underSuperior]
  cases t.superior <;> rfl

theorem childrenOf_underSuperior (oid : String) :
    (b.underSuperior t).childrenOf oid =
      b.childrenOf oid ++ if t.superior = some oid then [t.oid] else [] := by
  rw [underSuperior]
  cases hsup : t.superior with
  | none => simp
  | some sup =>
    simp only [childrenOf, addChild, SortedMap.find?_alter]
    by_cases hoid : oid = sup
    · simp [hoid]
    · simp [hoid, Ne.symm hoid]

end RegistryTables

namespace Registry

variable {r r' : Registry} {b : RegistryTables} {t t' : AttributeType}

/-- A type with free identifiers is added to the tables as it is to the list. -/
theorem Tabulated.extend (h : r.Tabulated b) (hfree : ∀ id ∈ t.identifiers, r.uses id = false) :
    Tabulated ⟨r.types ++ [t]⟩ (b.extend t) := by
  rw [RegistryTables.extend, RegistryTables.foldl_enter]
  constructor
  · intro id
    show (t.identifiers.foldl (fun byId id => byId.insert id t) (b.underSuperior t).byId).find? id =
      (r.types ++ [t]).find? fun u => u.identifiers.contains id
    rw [RegistryTables.find?_foldl_insert, RegistryTables.byId_underSuperior, h.byId,
      List.find?_append]
    by_cases hid : id ∈ t.identifiers
    · have hnone : r.types.find? (fun u => u.identifiers.contains id) = none := by
        exact Option.isNone_iff_eq_none.mp (Option.isSome_eq_false_iff.mp (hfree id hid))
      rw [if_pos hid, hnone, Option.none_or, List.find?_singleton, List.contains_iff_mem.mpr hid]
      rfl
    · simp [hid, find?]
  · intro oid
    show (b.underSuperior t).childrenOf oid =
      ((r.types ++ [t]).filter fun u => u.superior = some oid).map AttributeType.oid
    rw [RegistryTables.childrenOf_underSuperior, h.children, List.filter_append, List.map_append,
      childrenOf]
    by_cases hsup : t.superior = some oid <;> simp [hsup]
  · show (b.underSuperior t).order ++ [t.oid] = (r.types ++ [t]).map AttributeType.oid
    rw [RegistryTables.order_underSuperior, h.order, List.map_append, List.map_singleton]

end Registry

/-! ### Registration place by place -/

namespace TableEdit

variable {α β : Type} {b : RegistryTables} {r : Registry} {t : AttributeType}

/-- A computation that succeeds leaves its tables to the next one. -/
theorem runOn_bind_ok {x : TableEdit β} {f : β → TableEdit α} {a : β} {b' : RegistryTables}
    (h : x.runOn b = (.ok a, b')) : (x >>= f).runOn b = (f a).runOn b' :=
  run_bind_of_ok h

/-- A computation that fails is the last one. -/
theorem runOn_bind_error {x : TableEdit β} {f : β → TableEdit α} {err : SchemaError}
    {b' : RegistryTables} (h : x.runOn b = (.error err, b')) :
    (x >>= f).runOn b = (.error err, b') :=
  run_bind_of_error h

theorem runOn_refuseTaken (id : String) (err : SchemaError) (b : RegistryTables) :
    (refuseTaken id err).runOn b =
      (if b.byId.contains id then .error err else .ok ⟨⟩, b) := by
  have hrun : (refuseTaken id err).runOn b =
      (if b.byId.contains id then throw err else pure ⟨⟩ : TableEdit PUnit).runOn b := rfl
  rw [hrun]
  cases b.byId.contains id <;> rfl

/-- The first identifier that is taken is refused. -/
theorem runOn_forM_refuseTaken (err : String → SchemaError) (ids : List String)
    (b : RegistryTables) :
    (ids.forM fun id => refuseTaken id (err id)).runOn b =
      (match ids.find? b.byId.contains with
        | some id => .error (err id)
        | none => .ok ⟨⟩, b) := by
  induction ids with
  | nil => rfl
  | cons id ids ih =>
    have hcons : (id :: ids).forM (fun id => refuseTaken id (err id)) =
        (refuseTaken id (err id) >>= fun _ => ids.forM fun id => refuseTaken id (err id)) := rfl
    have hid := runOn_refuseTaken id (err id) b
    rw [hcons, List.find?_cons]
    cases htaken : b.byId.contains id with
    | true =>
      rw [htaken] at hid
      exact runOn_bind_error hid
    | false =>
      rw [htaken] at hid
      exact (runOn_bind_ok hid).trans ih

/-- A loop that fills in places. -/
theorem runOn_forM_change (f : RegistryTables → String → RegistryTables) (ids : List String)
    (b : RegistryTables) :
    (ids.forM fun id => change fun b => f b id).runOn b = (.ok ⟨⟩, ids.foldl f b) :=
  run_forM_of_ok (fun _ _ => rfl) ids b

theorem runOn_attach (h : r.Tabulated b) :
    (attach t).runOn b =
      match r.attach t with
      | .ok t' => (.ok t', b.underSuperior t')
      | .error err => (.error err, b) := by
  unfold attach Registry.attach
  cases hsup : t.superior with
  | none =>
    simp only [RegistryTables.underSuperior, hsup]
    rfl
  | some name =>
    have hget : ∀ f : RegistryTables → TableEdit AttributeType,
        (get >>= f).runOn b = (f b).runOn b := fun f => rfl
    simp only [hget, h.lookup?_eq]
    cases r.lookup? name with
    | none => rfl
    | some sup => rfl

/-- **Registration in tables** ends as it does on the list. If it succeeds, the type is in all
places, and if it fails, no place has changed. -/
theorem runOn_register (h : r.Tabulated b) :
    (register t).runOn b =
      match r.register t with
      | .ok (t', _) => (.ok t', b.extend t')
      | .error err => (.error err, b) := by
  have huses : b.byId.contains = r.uses := funext h.contains_eq
  have hregister : r.register t =
      if r.uses t.oid then .error (.malformed t.oid "attribute type registered twice")
      else
        match t.inLowercase.names.find? r.uses with
        | some name => .error (.malformed t.oid ("name '" ++ name ++ "' already in use"))
        | none => (r.attach t.inLowercase).map fun t => (t, ⟨r.types ++ [t]⟩) := rfl
  have hoid := runOn_refuseTaken t.oid (.malformed t.oid "attribute type registered twice") b
  have hnames := runOn_forM_refuseTaken
    (fun name => .malformed t.oid ("name '" ++ name ++ "' already in use")) t.inLowercase.names b
  have hattach := runOn_attach h (t := t.inLowercase)
  rw [h.contains_eq] at hoid
  rw [huses] at hnames
  rw [hregister, register]
  cases huse : r.uses t.oid with
  | true =>
    rw [huse] at hoid
    exact runOn_bind_error hoid
  | false =>
    rw [huse] at hoid
    refine (runOn_bind_ok hoid).trans ?_
    cases hfind : t.inLowercase.names.find? r.uses with
    | some name =>
      rw [hfind] at hnames
      exact runOn_bind_error hnames
    | none =>
      rw [hfind] at hnames
      refine (runOn_bind_ok hnames).trans ?_
      cases hsup : r.attach t.inLowercase with
      | error err =>
        rw [hsup] at hattach
        exact runOn_bind_error hattach
      | ok t' =>
        rw [hsup] at hattach
        refine (runOn_bind_ok hattach).trans ?_
        exact runOn_bind_ok (runOn_forM_change (RegistryTables.enter t') t'.identifiers _)

end TableEdit

/-! ### Histories of registrations -/

namespace Registry

variable {r : Registry} {b : RegistryTables} {t : AttributeType}

/-- An attempt in the tables does what the attempt on the list does. -/
theorem Tabulated.attempt (h : r.Tabulated b) (t : AttributeType) :
    (r.attempt t).Tabulated (b.attempt t) := by
  rw [RegistryTables.attempt, TableEdit.runOn_register h, Registry.attempt]
  cases hreg : r.register t with
  | error err => exact h
  | ok p =>
    obtain ⟨t', r'⟩ := p
    obtain ⟨-, -, rfl⟩ := register_eq_ok_iff.mp hreg
    obtain ⟨-, -, -, hfree⟩ := register_eq_ok hreg
    exact h.extend hfree

/-- **The tables have what the list has**, after whatever registrations, some of which may have been
refused. -/
theorem tabulated_attemptAll (ts : List AttributeType) :
    (Registry.empty.attemptAll ts).Tabulated (RegistryTables.empty.attemptAll ts) := by
  have hrun : ∀ {r : Registry} {b : RegistryTables}, r.Tabulated b →
      (r.attemptAll ts).Tabulated (b.attemptAll ts) := by
    induction ts with
    | nil => exact fun h => h
    | cons t ts ih => exact fun h => ih (h.attempt t)
  exact hrun tabulated_empty

end Registry

end Directory
