import Directory.Proofs.Registry
import Mathlib.Logic.Relation

/-!
# Subtypes

A type that was registered with a superior carries the OID of that superior, which was registered
before it (`Built.superior_mem`). `Registry.Below` follows superiors upwards, any number of them and
at least one. Since no type stands before its superior, one walk down the list of types finds all
types below a given one (`mem_subtypes_iff`).
-/

namespace Directory

namespace Registry

variable {r r' : Registry} {t t' u v : AttributeType} {oid : String}

/-- The second type is the superior of the first. -/
def Specializes (r : Registry) (u t : AttributeType) : Prop :=
  u ∈ r.types ∧ u.superior = some t.oid

/-- Superiors lead from the first type up to the second. -/
def Below (r : Registry) : AttributeType → AttributeType → Prop := Relation.TransGen r.Specializes

/-! ### Superiors come first -/

/-- The superior of a type that has been attached is registered. -/
theorem exists_superior_of_attach (h : r.attach t = .ok t') (hsup : t'.superior = some oid) :
    ∃ sup ∈ r.types, sup.oid = oid := by
  unfold attach at h
  split at h
  · next hnone =>
    cases h
    rw [hnone] at hsup
    cases hsup
  · split at h
    · next sup hfind =>
      cases h
      exact ⟨sup, mem_of_lookup? hfind, Option.some.inj hsup⟩
    · cases h

theorem exists_superior_of_register (h : r.register t = .ok (t', r'))
    (hsup : t'.superior = some oid) : ∃ sup ∈ r.types, sup.oid = oid := by
  unfold register at h
  dsimp only at h
  split at h
  · cases h
  · split at h
    · cases h
    · obtain ⟨u, hu, heq⟩ := map_eq_ok_iff.mp h
      obtain ⟨rfl, -⟩ := Prod.mk.inj heq
      exact exists_superior_of_attach hu hsup

/-- The superior of a registered type is registered. -/
theorem Built.superior_mem (h : r.Built) (ht : t ∈ r.types) (hsup : t.superior = some oid) :
    ∃ sup ∈ r.types, sup.oid = oid := by
  induction h with
  | empty => exact absurd ht List.not_mem_nil
  | @register r _ _ _ _ hreg ih =>
    obtain ⟨htypes, -⟩ := register_eq_ok hreg
    rw [htypes] at ht ⊢
    have hearlier : ∃ sup ∈ r.types, sup.oid = oid := by
      rcases List.mem_append.mp ht with ht | ht
      · exact ih ht
      · obtain rfl := List.mem_singleton.mp ht
        exact exists_superior_of_register hreg hsup
    obtain ⟨sup, hmem, hoid⟩ := hearlier
    exact ⟨sup, List.mem_append_left _ hmem, hoid⟩

/-- No type stands before its superior, and none is its own superior. -/
def Ordered (ts : List AttributeType) : Prop :=
  ts.Pairwise (fun t u => t.superior ≠ some u.oid) ∧ ∀ t ∈ ts, t.superior ≠ some t.oid

theorem Built.ordered (h : r.Built) : Ordered r.types := by
  induction h with
  | empty => exact ⟨List.Pairwise.nil, fun t ht => absurd ht List.not_mem_nil⟩
  | @register r r' t t' hbuilt hreg ih =>
    obtain ⟨htypes, -, -, hfree⟩ := register_eq_ok hreg
    have hnew : r.uses t'.oid = false := hfree t'.oid t'.oid_mem_identifiers
    -- the OID is new, so that it is nobody's superior yet
    have hnobody : ∀ sup ∈ r.types, sup.oid ≠ t'.oid := fun sup hsup hoid =>
      not_mem_of_uses hnew hsup (hoid ▸ sup.oid_mem_identifiers)
    have hself : t'.superior ≠ some t'.oid := fun hsup => by
      obtain ⟨sup, hmem, hoid⟩ := exists_superior_of_register hreg hsup
      exact hnobody sup hmem hoid
    rw [htypes]
    constructor
    · rw [List.pairwise_append]
      refine ⟨ih.1, List.pairwise_singleton _ _, fun u hu v hv hsup => ?_⟩
      obtain rfl := List.mem_singleton.mp hv
      obtain ⟨sup, hmem, hoid⟩ := hbuilt.superior_mem hu hsup
      exact hnobody sup hmem hoid
    · intro u hu
      rcases List.mem_append.mp hu with hu | hu
      · exact ih.2 u hu
      · obtain rfl := List.mem_singleton.mp hu
        exact hself

theorem Ordered.of_cons {ts : List AttributeType} (h : Ordered (t :: ts)) :
    (∀ u ∈ ts, t.superior ≠ some u.oid) ∧ Ordered ts := by
  obtain ⟨hlater, htail⟩ := List.pairwise_cons.mp h.1
  exact ⟨hlater, htail, fun u hu => h.2 u (List.mem_cons_of_mem _ hu)⟩

/-! ### The walk down the list -/

theorem mem_below_of_superior_eq {ts : List AttributeType} (hu : u ∈ ts)
    (hsup : u.superior = some oid) : u ∈ below oid ts := by
  induction ts with
  | nil => exact absurd hu List.not_mem_nil
  | cons t ts ih =>
    rw [below_cons]
    rcases List.mem_cons.mp hu with rfl | hu
    · simp [hsup]
    · split
      · exact List.mem_cons_of_mem _ (List.mem_append_right _ (ih hu))
      · exact ih hu

/-- The walk finds what specializes a type that it has found. -/
theorem mem_below_of_specializes {ts : List AttributeType} (hordered : Ordered ts)
    (hv : v ∈ below oid ts) (hu : u ∈ ts) (hsup : u.superior = some v.oid) : u ∈ below oid ts := by
  induction ts generalizing oid with
  | nil => exact absurd hu List.not_mem_nil
  | cons t ts ih =>
    obtain ⟨hlater, hrest⟩ := hordered.of_cons
    -- the type at the head specializes none that comes behind it
    have hbehind : ∀ id, v ∈ below id ts → u ∈ ts := fun id hfound => by
      rcases List.mem_cons.mp hu with rfl | hu
      · exact absurd hsup (hlater v (below_subset id ts hfound))
      · exact hu
    rw [below_cons] at hv ⊢
    split at hv
    · next hhead =>
      rw [if_pos hhead]
      rcases List.mem_append.mp hv with hv | hv
      · rcases List.mem_cons.mp hv with rfl | hv
        · have hmem : u ∈ ts := by
            rcases List.mem_cons.mp hu with rfl | hu
            · exact absurd hsup (hordered.2 u (by simp))
            · exact hu
          exact List.mem_append_left _ (List.mem_cons_of_mem _ (mem_below_of_superior_eq hmem hsup))
        · exact List.mem_append_left _ (List.mem_cons_of_mem _ (ih hrest hv (hbehind _ hv)))
      · exact List.mem_append_right _ (ih hrest hv (hbehind _ hv))
    · next hhead =>
      rw [if_neg hhead]
      exact ih hrest hv (hbehind _ hv)

/-- What the walk finds is below. -/
theorem below_of_mem_below {ts : List AttributeType} (hts : ts ⊆ r.types)
    (hu : u ∈ below t.oid ts) : r.Below u t := by
  induction ts generalizing t with
  | nil => exact absurd hu List.not_mem_nil
  | cons v ts ih =>
    obtain ⟨hv, hts⟩ := List.cons_subset.mp hts
    rw [below_cons] at hu
    split at hu
    · next hhead =>
      rcases List.mem_append.mp hu with hu | hu
      · rcases List.mem_cons.mp hu with rfl | hu
        · exact .single ⟨hv, hhead⟩
        · exact (ih hts hu).tail ⟨hv, hhead⟩
      · exact ih hts hu
    · exact ih hts hu

/-- **The subtypes of a type are those below it.** -/
theorem mem_subtypes_iff (h : r.Built) : u ∈ r.subtypes t ↔ r.Below u t := by
  constructor
  · exact below_of_mem_below (List.Subset.refl _)
  · intro hbelow
    induction hbelow using Relation.TransGen.head_induction_on with
    | single hspec => exact mem_below_of_superior_eq hspec.1 hspec.2
    | head hspec _ ih => exact mem_below_of_specializes h.ordered ih hspec.1 hspec.2

end Registry

/-! ### A schema with a subtype -/

/-- Badges, which have numbers. -/
def AttributeType.badge : AttributeType :=
  { oid := "1.1", names := ["badge"], equality := some .integerMatch }

/-- Badges of visitors, which are compared as texts. -/
def AttributeType.visitorBadge : AttributeType :=
  { oid := "1.2", names := ["visitorbadge"], superior := some "1.1",
    equality := some .caseExactMatch }

namespace Registry

/-- The schema that knows of badges. -/
def badges : Registry := ⟨[.badge, .visitorBadge]⟩

theorem built_badges : badges.Built := by
  have hbadge : Registry.empty.register .badge = .ok (.badge, ⟨[.badge]⟩) := by decide +kernel
  have hvisitor : (⟨[.badge]⟩ : Registry).register .visitorBadge = .ok (.visitorBadge, badges) := by
    decide +kernel
  exact (Built.empty.register hbadge).register hvisitor

theorem lowercaseOids_badges : badges.LowercaseOids :=
  lowercaseOids_of_numeric (by decide)

end Registry

end Directory
