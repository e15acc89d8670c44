import Directory.Proofs.Subtypes

/-!
# Registered types stay reachable

Registration only ever adds types, and refuses identifiers that are taken. Hence a type stays
reachable under its names, in any letter case, whatever is registered later.

An OID is kept as it is written, but look-up tries its lowercase form first. A type is reachable
under its OID as long as no other type has that form among its identifiers
(`Built.resolve_oid_iff`). Registration does not see to it, since it compares OIDs as they are
written: `resolve_registered_iff` has the exact condition for whole histories of registrations, and
`exists_oid_taken_by_name` a name that takes an OID over.
-/

namespace Directory

namespace Registry

variable {r r' : Registry} {t t' u : AttributeType} {name : String}

/-! ### Registering one type after the other -/

/-- The registry after the attempt to register a type, which may be refused. -/
def attempt (r : Registry) (t : AttributeType) : Registry :=
  match r.register t with
  | .ok (_, r') => r'
  | .error _ => r

/-- The registry after several attempts. -/
def attemptAll (r : Registry) (ts : List AttributeType) : Registry := ts.foldl attempt r

theorem attemptAll_append (ts us : List AttributeType) :
    r.attemptAll (ts ++ us) = (r.attemptAll ts).attemptAll us := List.foldl_append

theorem attemptAll_cons_of_register (h : r.register t = .ok (t', r')) (ts : List AttributeType) :
    r.attemptAll (t :: ts) = r'.attemptAll ts := by
  have hattempt : r.attempt t = r' := by rw [attempt, h]
  rw [attemptAll, List.foldl_cons, hattempt]
  rfl

theorem Built.attempt (h : r.Built) (t : AttributeType) : (r.attempt t).Built := by
  rw [Registry.attempt]
  split
  · next hreg => exact h.register hreg
  · exact h

theorem Built.attemptAll (h : r.Built) (ts : List AttributeType) : (r.attemptAll ts).Built := by
  induction ts generalizing r with
  | nil => exact h
  | cons t ts ih => exact ih (h.attempt t)

/-- No type gets lost. -/
theorem subset_attempt (t : AttributeType) : r.types ⊆ (r.attempt t).types := by
  rw [attempt]
  split
  · next hreg =>
    rw [(register_eq_ok hreg).1]
    exact List.subset_append_left _ _
  · exact List.Subset.refl _

theorem subset_attemptAll (ts : List AttributeType) : r.types ⊆ (r.attemptAll ts).types := by
  induction ts generalizing r with
  | nil => exact List.Subset.refl _
  | cons t ts ih => exact List.Subset.trans (subset_attempt t) ih

/-! ### Look-up of a registered type -/

theorem Built.resolve_of_name (h : r.Built) (ht : t ∈ r.types)
    (hname : lowercase name ∈ t.names) : r.resolve name = .ok t := by
  have hfind : r.find? (lowercase name) = some t :=
    h.find?_eq_some_iff.mpr ⟨ht, AttributeType.mem_identifiers.mpr (.inl hname)⟩
  rw [resolve_eq_ok_iff_lookup?, lookup?, hfind, Option.some_or]

/-- A type answers to its OID if no other type has the lowercase form of it as an identifier. -/
theorem Built.resolve_oid_iff (h : r.Built) (ht : t ∈ r.types) :
    r.resolve t.oid = .ok t ↔ ∀ u ∈ r.types, lowercase t.oid ∈ u.identifiers → u = t := by
  have hwritten : r.find? t.oid = some t := h.find?_eq_some_iff.mpr ⟨ht, t.oid_mem_identifiers⟩
  rw [resolve_eq_ok_iff_lookup?, lookup?, hwritten]
  constructor
  · intro hfind u hu hid
    rw [h.find?_eq_some_iff.mpr ⟨hu, hid⟩, Option.some_or] at hfind
    exact Option.some.inj hfind
  · intro hnone
    cases hfind : r.find? (lowercase t.oid) with
    | none => rw [Option.none_or]
    | some u =>
      obtain ⟨hu, hid⟩ := h.find?_eq_some_iff.mp hfind
      rw [Option.some_or, hnone u hu hid]

/-- **What a registered type stays reachable under.** Whatever types were registered or refused
before and after it: its names are found in any letter case. Its OID is found as it is written
exactly if no other type has the lowercase form of the OID as an identifier, and so it is always
found if it is in lowercase, as numbers with dots are. -/
theorem resolve_registered_iff {earlier : List AttributeType}
    (h : (Registry.empty.attemptAll earlier).register t = .ok (t', r'))
    (later : List AttributeType) :
    let r := Registry.empty.attemptAll (earlier ++ t :: later)
    t'.oid = t.oid ∧ t'.names = t.names.map lowercase ∧
      (∀ n ∈ t.names, ∀ name,
        lowercase name = lowercase n ∨ Text.sameIgnoringAsciiCase name n = true →
          r.resolve name = .ok t') ∧
      (r.resolve t.oid = .ok t' ↔ ∀ u ∈ r.types, lowercase t.oid ∈ u.identifiers → u = t') ∧
      (lowercase t.oid = t.oid → r.resolve t.oid = .ok t') := by
  intro r
  obtain ⟨htypes, hoid, hnames, -⟩ := register_eq_ok h
  have hr : r.Built := Built.empty.attemptAll _
  have hmem : t' ∈ r.types := by
    have hlater : r = r'.attemptAll later := by
      rw [← attemptAll_cons_of_register h, ← attemptAll_append]
    rw [hlater]
    exact subset_attemptAll later (by simp [htypes])
  refine ⟨hoid, hnames, ?_, ?_, ?_⟩
  · rintro n hn name hsame
    have hlower : lowercase name = lowercase n :=
      hsame.elim id lowercase_eq_of_sameIgnoringAsciiCase
    refine hr.resolve_of_name hmem ?_
    rw [hlower, hnames]
    exact List.mem_map_of_mem hn
  · rw [← hoid]
    exact hr.resolve_oid_iff hmem
  · intro hlower
    rw [← hoid] at hlower ⊢
    refine (hr.resolve_oid_iff hmem).mpr fun u hu hid => ?_
    rw [hlower] at hid
    exact hr.eq_of_shared hu hmem hid t'.oid_mem_identifiers

/-- One attempt before and one after the registration are refused. -/
theorem resolve_registered_iff_visitorBadge :
    let t := { AttributeType.visitorBadge with names := ["visitorBadge"], superior := some "Badge" }
    let r := Registry.empty.attemptAll ([.badge, .badge] ++ t ::
      [{ AttributeType.commonName with names := ["VISITORBADGE"] }, .commonName])
    r.types = [.badge, .visitorBadge, .commonName] ∧
      r.resolve "VisitorBADGE" = .ok .visitorBadge ∧ r.resolve "1.2" = .ok .visitorBadge := by
  intro t r
  have h : (Registry.empty.attemptAll [.badge, .badge]).register t =
      .ok (.visitorBadge, .badges) := by decide +kernel
  obtain ⟨-, -, hname, -, hoid⟩ := resolve_registered_iff h
    [{ AttributeType.commonName with names := ["VISITORBADGE"] }, .commonName]
  refine ⟨by decide +kernel, hname "visitorBadge" (by decide) _ (.inr (by decide)), hoid ?_⟩
  decide +kernel

/-- A type with an OID in capitals answers to it until the same letters become a name of another
type. -/
theorem exists_oid_taken_by_name :
    let t : AttributeType := { oid := "CN" }
    ∃ r r' : Registry, Registry.empty.register t = .ok (t, r) ∧
      r.register .commonName = .ok (.commonName, r') ∧ r.resolve t.oid = .ok t ∧
      r'.resolve t.oid = .ok .commonName ∧ AttributeType.commonName ≠ t := by
  intro t
  exact ⟨⟨[t]⟩, ⟨[t, .commonName]⟩, by decide +kernel, by decide +kernel, by decide +kernel,
    by decide +kernel, by decide +kernel⟩

end Registry

end Directory
