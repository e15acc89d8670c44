import Directory.Proofs.RegistryTables

/-!
# The tree of subtypes

The direct subtypes of a type come in the order of their registration, and each of them is followed
by its own. `Registry.Preorder` says that a list goes through trees of types in this way, and
`preorder_subtypes` that the subtypes of a type do.

In the tables of a registry the subtypes are found with a stack of OIDs (`SubtypeWalk`). The OID on
top is taken away, its type is noted, and the OIDs of its direct subtypes are pushed, the last one
first. `run_of_preorder` says that such a walk goes through the trees on its stack in preorder and
comes to an end, one step for each type.

No type is found twice (`nodup_subtypes`), because no two types have the same OID, and none is found
below itself (`oid_ne_of_mem_subtypes`), because superiors come first.
-/

namespace Directory

namespace Registry

variable {r : Registry} {t u v : AttributeType} {oid : String} {ts us us' : List AttributeType}

/-! ### Preorder -/

/-- The second list goes through the trees of the types in the first: each type is followed by the
trees of its direct subtypes, in the order of registration. -/
inductive Preorder (r : Registry) : List AttributeType → List AttributeType → Prop where
  | nil : Preorder r [] []
  | cons {t : AttributeType} {ts under rest : List AttributeType} :
      Preorder r (r.childrenOf t.oid) under → Preorder r ts rest →
        Preorder r (t :: ts) (t :: under ++ rest)

/-- There is one way to go through trees. -/
theorem Preorder.unique (h : r.Preorder ts us) (h' : r.Preorder ts us') : us = us' := by
  induction h generalizing us' with
  | nil =>
    cases h'
    rfl
  | cons _ _ ihunder ihrest =>
    cases h' with
    | cons hunder hrest => rw [ihunder hunder, ihrest hrest]

/-- The types that come before a type, and the type itself, do not specialize it. -/
theorem Ordered.superior_ne {before after : List AttributeType}
    (h : Ordered (before ++ t :: after)) : ∀ u ∈ before ++ [t], u.superior ≠ some t.oid := by
  intro u hu
  rcases List.mem_append.mp hu with hu | hu
  · exact (List.pairwise_append.mp h.1).2.2 u hu t List.mem_cons_self
  · obtain rfl := List.mem_singleton.mp hu
    exact h.2 u (by simp)

/-- The direct subtypes of a type come behind it. -/
theorem childrenOf_eq_filter {before after : List AttributeType} (h : r.Built)
    (htypes : r.types = before ++ t :: after) :
    r.childrenOf t.oid = after.filter fun u => u.superior = some t.oid := by
  have hnone : (before ++ [t]).filter (fun u => u.superior = some t.oid) = [] := by
    rw [List.filter_eq_nil_iff]
    intro u hu
    simpa using (htypes ▸ h.ordered).superior_ne u hu
  rw [childrenOf, htypes, List.append_cons, List.filter_append, hnone, List.nil_append]

/-- The walk down the list goes through the trees of the types that it starts from. -/
theorem preorder_below (h : r.Built) {before after : List AttributeType}
    (htypes : r.types = before ++ after) (oid : String) :
    r.Preorder (after.filter fun u => u.superior = some oid) (below oid after) := by
  induction after generalizing before oid with
  | nil => exact .nil
  | cons t after ih =>
    have hrest : r.types = (before ++ [t]) ++ after :=
      htypes.trans (List.append_cons before t after)
    rw [List.filter_cons, below_cons]
    by_cases hsup : t.superior = some oid
    · have hunder : r.Preorder (r.childrenOf t.oid) (below t.oid after) :=
        childrenOf_eq_filter h htypes ▸ ih hrest t.oid
      simpa [hsup] using Preorder.cons hunder (ih hrest oid)
    · simpa [hsup] using ih hrest oid

/-- **The subtypes of a type go through the trees of its direct subtypes.** -/
theorem preorder_subtypes (h : r.Built) (t : AttributeType) :
    r.Preorder (r.childrenOf t.oid) (r.subtypes t) :=
  preorder_below h (List.nil_append r.types).symm t.oid

/-! ### Each type once -/

/-- No two types have the same OID. -/
theorem Built.nodup_oids (h : r.Built) : (r.types.map AttributeType.oid).Nodup := by
  induction h with
  | empty => exact List.nodup_nil
  | @register r r' t t' _ hreg ih =>
    obtain ⟨htypes, -, -, hfree⟩ := register_eq_ok hreg
    rw [htypes, List.map_append, List.nodup_append']
    refine ⟨ih, List.nodup_singleton _, ?_⟩
    rw [List.map_singleton, List.disjoint_singleton]
    intro hmem
    obtain ⟨u, hu, hoid⟩ := List.mem_map.mp hmem
    exact not_mem_of_uses (hfree t'.oid t'.oid_mem_identifiers) hu (hoid ▸ u.oid_mem_identifiers)

/-- What is below two OIDs that the list does not have is apart, since a type has one superior. -/
theorem disjoint_below {a b : String} (hts : (ts.map AttributeType.oid).Nodup) (hab : a ≠ b)
    (ha : a ∉ ts.map AttributeType.oid) (hb : b ∉ ts.map AttributeType.oid) :
    (below a ts).Disjoint (below b ts) := by
  induction ts generalizing a b with
  | nil => exact List.disjoint_nil_left _
  | cons t ts ih =>
    obtain ⟨ht, hts⟩ := List.nodup_cons.mp hts
    rw [List.map_cons, List.mem_cons, not_or] at ha hb
    have hapart : (below a ts).Disjoint (below b ts) := ih hts hab ha.2 hb.2
    -- the head is below one of the two at most, and takes what is below itself along
    have hhead : ∀ {id : String}, id ≠ t.oid → id ∉ ts.map AttributeType.oid →
        (t :: below t.oid ts).Disjoint (below id ts) := fun hid hnot =>
      List.disjoint_cons_left.mpr
        ⟨fun hmem => ht (List.mem_map_of_mem (below_subset _ ts hmem)), ih hts hid.symm ht hnot⟩
    rw [below_cons, below_cons]
    by_cases hsupa : t.superior = some a
    · have hsupb : t.superior ≠ some b := fun hsupb =>
        hab (Option.some.inj (hsupa.symm.trans hsupb))
      rw [if_pos hsupa, if_neg hsupb]
      exact List.disjoint_append_left.mpr ⟨hhead hb.1 hb.2, hapart⟩
    · rw [if_neg hsupa]
      by_cases hsupb : t.superior = some b
      · rw [if_pos hsupb]
        exact List.disjoint_append_right.mpr ⟨List.disjoint_comm.mp (hhead ha.1 ha.2), hapart⟩
      · rw [if_neg hsupb]
        exact hapart

/-- The walk down the list finds no type twice. -/
theorem nodup_below (hordered : Ordered ts) (hts : (ts.map AttributeType.oid).Nodup)
    (oid : String) : (below oid ts).Nodup := by
  induction ts generalizing oid with
  | nil => exact List.nodup_nil
  | cons t ts ih =>
    obtain ⟨hlater, hrest⟩ := hordered.of_cons
    obtain ⟨ht, hts⟩ := List.nodup_cons.mp hts
    have hnew : ∀ id, t ∉ below id ts := fun id hmem =>
      ht (List.mem_map_of_mem (below_subset id ts hmem))
    rw [below_cons]
    by_cases hsup : t.superior = some oid
    · -- the OID is not in the list any more, since superiors come first
      have hself : t.oid ≠ oid := fun hoid => hordered.2 t List.mem_cons_self (hoid ▸ hsup)
      have hbehind : oid ∉ ts.map AttributeType.oid := fun hmem => by
        obtain ⟨u, hu, rfl⟩ := List.mem_map.mp hmem
        exact hlater u hu hsup
      rw [if_pos hsup, List.nodup_append', List.nodup_cons, List.disjoint_cons_left]
      exact ⟨⟨hnew _, ih hrest hts _⟩, ih hrest hts _, hnew _,
        disjoint_below hts hself ht hbehind⟩
    · rw [if_neg hsup]
      exact ih hrest hts oid

/-- No type is found twice. -/
theorem nodup_subtypes (h : r.Built) (t : AttributeType) :
    ((r.subtypes t).map AttributeType.oid).Nodup := by
  refine (nodup_below h.ordered h.nodup_oids t.oid).map_on fun u hu v hv hoid => ?_
  exact List.inj_on_of_nodup_map h.nodup_oids (mem_of_mem_subtypes hu) (mem_of_mem_subtypes hv) hoid

/-! ### No cycles -/

/-- What is below a type comes behind it. -/
theorem subtypes_subset (h : r.Built) {before after : List AttributeType}
    (htypes : r.types = before ++ t :: after) : r.subtypes t ⊆ after := by
  have hskip : ∀ {ts : List AttributeType}, (∀ u ∈ ts, u.superior ≠ some t.oid) →
      below t.oid (ts ++ after) = below t.oid after := by
    intro ts hts
    induction ts with
    | nil => rfl
    | cons u ts ih =>
      obtain ⟨hu, hts⟩ := List.forall_mem_cons.mp hts
      rw [List.cons_append, below_cons, if_neg hu, ih hts]
  rw [subtypes, htypes, List.append_cons, hskip (htypes ▸ h.ordered).superior_ne]
  exact below_subset t.oid after

/-- No subtype has the OID of the type itself. -/
theorem oid_ne_of_mem_subtypes (h : r.Built) (hu : u ∈ r.subtypes t) : u.oid ≠ t.oid := by
  intro hoid
  obtain ⟨before, after, htypes⟩ := List.append_of_mem (mem_of_mem_subtypes hu)
  have hbehind : u ∈ after := by
    rw [subtypes, ← hoid] at hu
    exact subtypes_subset h htypes hu
  have hnodup : r.types.Nodup := List.Nodup.of_map _ h.nodup_oids
  rw [htypes] at hnodup
  exact (List.nodup_cons.mp (List.nodup_append.mp hnodup).2.1).1 hbehind

theorem isSubtype_iff : r.isSubtype t u = true ↔ ∃ t' ∈ r.subtypes u, t'.oid = t.oid := by
  simp [isSubtype]

theorem isSubtype_self (h : r.Built) (t : AttributeType) : r.isSubtype t t = false := by
  rw [Bool.eq_false_iff, ne_eq, isSubtype_iff]
  rintro ⟨u, hu, hoid⟩
  exact oid_ne_of_mem_subtypes h hu hoid

theorem isSubtype_trans (h : r.Built) (htu : r.isSubtype t u = true)
    (huv : r.isSubtype u v = true) : r.isSubtype t v = true := by
  rw [isSubtype_iff] at htu huv ⊢
  obtain ⟨t', ht', hoid⟩ := htu
  obtain ⟨u', hu', hoid'⟩ := huv
  -- what is below a type depends on its OID alone
  have ht' : t' ∈ r.subtypes u' := by
    rw [subtypes, hoid']
    exact ht'
  rw [mem_subtypes_iff h] at ht' hu'
  exact ⟨t', (mem_subtypes_iff h).mpr (ht'.trans hu'), hoid⟩

end Registry

/-! ### The walk through the tables -/

/-- A walk through the tables of a registry. -/
structure SubtypeWalk where
  /-- The OIDs that are still to be visited, the next one first. -/
  stack : List String
  /-- The types found so far. -/
  found : List AttributeType

namespace SubtypeWalk

/-- Push OIDs one after the other. -/
def push (stack oids : List String) : List String :=
  oids.foldl (fun stack oid => oid :: stack) stack

/-- The start of the walk below a type. The last OID is pushed first, so that the first is next. -/
def start (b : RegistryTables) (t : AttributeType) : SubtypeWalk :=
  ⟨push [] (b.childrenOf t.oid).reverse, []⟩

/-- One step. The walk stays where it is when nothing is left. -/
def step (b : RegistryTables) (w : SubtypeWalk) : SubtypeWalk :=
  match w.stack with
  | [] => w
  | oid :: stack =>
    ⟨push stack (b.childrenOf oid).reverse, w.found ++ (b.byId.find? oid).toList⟩

/-- Several steps. -/
def run (b : RegistryTables) (w : SubtypeWalk) : Nat → SubtypeWalk
  | 0 => w
  | n + 1 => run b (w.step b) n

variable {b : RegistryTables} {r : Registry} {ts us : List AttributeType} {stack : List String}
  {found : List AttributeType}

theorem push_reverse (stack oids : List String) : push stack oids.reverse = oids ++ stack := by
  rw [push, List.foldl_flip_cons_eq_append, List.map_id', List.reverse_reverse]

theorem run_add (w : SubtypeWalk) (m n : Nat) : w.run b (m + n) = (w.run b m).run b n := by
  induction m generalizing w with
  | zero => rw [Nat.zero_add]; rfl
  | succ m ih =>
    rw [Nat.succ_add]
    exact ih (w.step b)

/-- A step visits a type. -/
theorem step_of_mem (h : r.Tabulated b) (hr : r.Built) {t : AttributeType} (ht : t ∈ r.types) :
    step b ⟨t.oid :: stack, found⟩ =
      ⟨(r.childrenOf t.oid).map AttributeType.oid ++ stack, found ++ [t]⟩ := by
  have hfind : b.byId.find? t.oid = some t :=
    (h.byId t.oid).trans (hr.find?_eq_some_iff.mpr ⟨ht, t.oid_mem_identifiers⟩)
  simp only [step, push_reverse, h.children, hfind, Option.toList_some]

/-- **A walk goes through the trees on its stack in preorder**, one step for each type. -/
theorem run_of_preorder (h : r.Tabulated b) (hr : r.Built) (hpre : r.Preorder ts us)
    (hts : ts ⊆ r.types) :
    run b ⟨ts.map AttributeType.oid ++ stack, found⟩ us.length = ⟨stack, found ++ us⟩ := by
  induction hpre generalizing stack found with
  | nil => simp [run]
  | @cons t ts under rest _ _ ihunder ihrest =>
    obtain ⟨ht, hts⟩ := List.cons_subset.mp hts
    have hchildren : r.childrenOf t.oid ⊆ r.types := List.filter_subset_self _
    have hlength : (t :: under ++ rest).length = 1 + (under.length + rest.length) := by
      rw [List.length_append, List.length_cons]
      omega
    have hfirst : run b ⟨(t :: ts).map AttributeType.oid ++ stack, found⟩ 1 =
        ⟨(r.childrenOf t.oid).map AttributeType.oid ++ (ts.map AttributeType.oid ++ stack),
          found ++ [t]⟩ := step_of_mem h hr ht
    rw [hlength, run_add, run_add, hfirst, ihunder hchildren, ihrest hts]
    simp

/-- The walk below a type finds its subtypes and comes to an end. -/
theorem run_start (h : r.Tabulated b) (hr : r.Built) (t : AttributeType) :
    (start b t).run b (r.subtypes t).length = ⟨[], r.subtypes t⟩ := by
  have hstart : start b t = ⟨(r.childrenOf t.oid).map AttributeType.oid ++ [], []⟩ := by
    rw [start, push_reverse, h.children]
  rw [hstart]
  exact run_of_preorder h hr (Registry.preorder_subtypes hr t) (List.filter_subset_self _)

end SubtypeWalk

/-- **The subtypes of a type.** Whatever types were registered or refused, the walk through the
tables ends with the list of subtypes. The list has exactly the types from which superiors lead up
to the given one, each of them once. It goes through the trees of the direct subtypes in preorder,
and is the only list that does. Hence no type is a subtype of itself, and a subtype of a subtype is
a subtype. -/
theorem subtypes_attemptAll (ts : List AttributeType) (t : AttributeType) :
    let r := Registry.empty.attemptAll ts
    let b := RegistryTables.empty.attemptAll ts
    b.order = r.types.map AttributeType.oid ∧
      (∃ n, (SubtypeWalk.start b t).run b n = ⟨[], r.subtypes t⟩) ∧
      (∀ u, u ∈ r.subtypes t ↔ r.Below u t) ∧
      ((r.subtypes t).map AttributeType.oid).Nodup ∧
      (∀ us, r.Preorder (r.childrenOf t.oid) us ↔ us = r.subtypes t) ∧
      t ∉ r.subtypes t ∧ r.isSubtype t t = false ∧
      ∀ u v, r.isSubtype t u = true → r.isSubtype u v = true → r.isSubtype t v = true := by
  intro r b
  have hb : r.Tabulated b := Registry.tabulated_attemptAll ts
  have hr : r.Built := Registry.Built.empty.attemptAll ts
  have hpre : r.Preorder (r.childrenOf t.oid) (r.subtypes t) := Registry.preorder_subtypes hr t
  refine ⟨hb.order, ⟨_, SubtypeWalk.run_start hb hr t⟩, fun u => Registry.mem_subtypes_iff hr,
    Registry.nodup_subtypes hr t, fun us => ⟨fun h => h.unique hpre, fun h => h ▸ hpre⟩,
    fun ht => Registry.oid_ne_of_mem_subtypes hr ht rfl, Registry.isSubtype_self hr t,
    fun u v => Registry.isSubtype_trans hr⟩

/-- A subtype of the first direct subtype comes before the second, although it was registered behind
it. Two attempts in between are refused. -/
example :
    let r := Registry.empty.attemptAll
      [{ oid := "2.5.4.41", names := ["name"], equality := some .caseIgnoreMatch },
        { oid := "2.5.4.3", names := ["cn", "commonName"], superior := some "name" },
        { oid := "9.9", names := ["CN"], superior := some "name" },
        { oid := "2.5.4.4", names := ["sn", "surname"], superior := some "Name" },
        { oid := "9.9", names := ["x"], superior := some "missing" },
        { oid := "1.9.1", names := ["nickCn"], superior := some "cn" }]
    (r.subtypes { oid := "2.5.4.41" }).map AttributeType.oid = ["2.5.4.3", "1.9.1", "2.5.4.4"] := by
  decide +kernel

end Directory
