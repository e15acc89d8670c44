import Directory.Proofs.Checks
import Directory.Proofs.LetterCase
import Directory.Schema.Registry
import Mathlib.Data.List.Pairwise

/-!
# What identifiers stand for

In a registry that registration leads to (`Registry.Built`) no two types share an identifier, and
all names are in lowercase. If the OIDs are in lowercase too, as numeric ones are
(`lowercaseOids_of_numeric`), a name or an OID in any letter case stands for the one type that has
it (`resolve_eq_ok_iff`), and a type known by the OID of another is that other type
(`eq_of_isKnownAs`).
-/

namespace Directory

namespace Registry

/-- Registration leads from the empty registry to this one. -/
inductive Built : Registry → Prop where
  | empty : Built .empty
  | register {r r' : Registry} {t t' : AttributeType} :
      Built r → r.register t = .ok (t', r') → Built r'

/-- The OIDs are in lowercase, as numeric ones are. -/
def LowercaseOids (r : Registry) : Prop := ∀ t ∈ r.types, lowercase t.oid = t.oid

/-- Numbers with dots between them are in lowercase. -/
theorem lowercaseOids_of_numeric {r : Registry}
    (h : ∀ t ∈ r.types, (t.oid.toList.all fun c => c == '.' || c.isDigit) = true) :
    r.LowercaseOids := fun t ht => lowercase_eq_self_of_numeric (h t ht)

/-- Types that share an identifier are the same. -/
def NoShared (t u : AttributeType) : Prop := ∀ id ∈ t.identifiers, id ∈ u.identifiers → t = u

variable {r r' : Registry} {t t' u : AttributeType} {id name : String}

/-! ### Registration -/

/-- Attaching a type to its superior does not change what it answers to. -/
theorem attach_keeps (h : r.attach t = .ok t') : t'.oid = t.oid ∧ t'.names = t.names := by
  unfold attach at h
  split at h
  · cases h; exact ⟨rfl, rfl⟩
  · split at h
    · cases h; exact ⟨rfl, rfl⟩
    · cases h

/-- A type is registered behind the others, under names in lowercase, if no identifier is taken. -/
theorem register_eq_ok (h : r.register t = .ok (t', r')) :
    r'.types = r.types ++ [t'] ∧ t'.oid = t.oid ∧ t'.names = t.names.map lowercase ∧
      ∀ id ∈ t'.identifiers, r.uses id = false := by
  unfold register at h
  dsimp only at h
  split at h
  · cases h
  · next hoid =>
    split at h
    · cases h
    · next hnames =>
      obtain ⟨u, hu, heq⟩ := map_eq_ok_iff.mp h
      obtain ⟨rfl, rfl⟩ := Prod.mk.inj heq
      obtain ⟨hkeptOid, hkeptNames⟩ := attach_keeps hu
      refine ⟨rfl, hkeptOid, hkeptNames, fun id hid => ?_⟩
      rw [AttributeType.mem_identifiers, hkeptNames, hkeptOid] at hid
      rcases hid with hid | rfl
      · simpa using List.find?_eq_none.mp hnames id hid
      · simpa using hoid

theorem not_mem_of_uses (h : r.uses id = false) (ht : t ∈ r.types) : id ∉ t.identifiers := by
  intro hid
  rw [uses, Option.isSome_eq_false_iff, Option.isNone_iff_eq_none] at h
  have := List.find?_eq_none.mp h t ht
  simp [hid] at this

theorem Built.pairwise (h : r.Built) : r.types.Pairwise NoShared := by
  induction h with
  | empty => exact List.Pairwise.nil
  | register _ hreg ih =>
    obtain ⟨htypes, -, -, hfree⟩ := register_eq_ok hreg
    rw [htypes, List.pairwise_append]
    refine ⟨ih, List.pairwise_singleton _ _, fun t ht u hu id hidt hidu => ?_⟩
    obtain rfl := List.mem_singleton.mp hu
    exact absurd hidt (not_mem_of_uses (hfree id hidu) ht)

theorem Built.names_lowercase (h : r.Built) : ∀ t ∈ r.types, ∀ n ∈ t.names, lowercase n = n := by
  induction h with
  | empty => exact fun t ht => absurd ht List.not_mem_nil
  | register _ hreg ih =>
    obtain ⟨htypes, -, hnames, -⟩ := register_eq_ok hreg
    intro t ht n hn
    rw [htypes, List.mem_append, List.mem_singleton] at ht
    rcases ht with ht | rfl
    · exact ih t ht n hn
    · rw [hnames, List.mem_map] at hn
      obtain ⟨m, -, rfl⟩ := hn
      exact lowercase_lowercase m

/-! ### Look-up -/

theorem mem_of_lookup? (h : r.lookup? name = some t) : t ∈ r.types := by
  rw [lookup?, Option.or_eq_some_iff] at h
  rcases h with h | ⟨-, h⟩ <;> exact List.mem_of_find?_eq_some h

theorem resolve_eq_ok_iff_lookup? : r.resolve name = .ok t ↔ r.lookup? name = some t := by
  rw [resolve]
  cases r.lookup? name <;> simp

theorem resolve_mem (h : r.resolve name = .ok t) : t ∈ r.types :=
  mem_of_lookup? (resolve_eq_ok_iff_lookup?.mp h)

theorem Built.eq_of_shared (h : r.Built) (ht : t ∈ r.types) (hu : u ∈ r.types)
    (hidt : id ∈ t.identifiers) (hidu : id ∈ u.identifiers) : t = u := by
  have hsymm : Std.Symm NoShared := ⟨fun t u h id hu ht => (h id ht hu).symm⟩
  exact List.Pairwise.forall_of_forall (fun _ _ _ _ _ => rfl) h.pairwise ht hu id hidt hidu

theorem Built.find?_eq_some_iff (h : r.Built) :
    r.find? id = some t ↔ t ∈ r.types ∧ id ∈ t.identifiers := by
  constructor
  · intro hfind
    exact ⟨List.mem_of_find?_eq_some hfind, by simpa using List.find?_some hfind⟩
  · rintro ⟨ht, hid⟩
    cases hfind : r.find? id with
    | none => exact absurd (List.find?_eq_none.mp hfind t ht) (by simp [hid])
    | some u =>
      have hidu : id ∈ u.identifiers := by simpa using List.find?_some hfind
      rw [h.eq_of_shared (List.mem_of_find?_eq_some hfind) ht hidu hid]

theorem Built.identifier_lowercase (h : r.Built) (ho : r.LowercaseOids) (ht : t ∈ r.types)
    (hid : id ∈ t.identifiers) : lowercase id = id := by
  rcases AttributeType.mem_identifiers.mp hid with hid | rfl
  · exact h.names_lowercase t ht id hid
  · exact ho t ht

/-- **A name or an OID stands for the type that has its lowercase form as an identifier.** -/
theorem resolve_eq_ok_iff (h : r.Built) (ho : r.LowercaseOids) :
    r.resolve name = .ok t ↔ t ∈ r.types ∧ lowercase name ∈ t.identifiers := by
  have hlookup : r.lookup? name = r.find? (lowercase name) := by
    rw [lookup?]
    cases hfind : r.find? name with
    | none => rw [Option.or_none]
    | some u =>
      -- an identifier is in lowercase, so that both look for the same
      obtain ⟨hu, hid⟩ := h.find?_eq_some_iff.mp hfind
      rw [h.identifier_lowercase ho hu hid, hfind, Option.or_self]
  rw [resolve_eq_ok_iff_lookup?, hlookup, h.find?_eq_some_iff]

theorem resolve_oid (h : r.Built) (ho : r.LowercaseOids) (ht : t ∈ r.types) :
    r.resolve t.oid = .ok t := by
  rw [resolve_eq_ok_iff h ho, ho t ht]
  exact ⟨ht, t.oid_mem_identifiers⟩

/-- A type that is known as the OID of another is that other type. -/
theorem eq_of_isKnownAs (h : r.Built) (ho : r.LowercaseOids) (ht : t ∈ r.types) (hu : u ∈ r.types)
    (hknown : u.isKnownAs t.oid = true) : u = t := by
  refine h.eq_of_shared hu ht ?_ t.oid_mem_identifiers
  rw [AttributeType.isKnownAs, Bool.or_eq_true, beq_iff_eq, List.any_eq_true] at hknown
  rcases hknown with hoid | ⟨n, hn, hsame⟩
  · rw [← hoid]
    exact u.oid_mem_identifiers
  · have hlower := lowercase_eq_of_sameIgnoringAsciiCase hsame
    rw [h.names_lowercase u hu n hn, ho t ht] at hlower
    rw [← hlower]
    exact AttributeType.mem_identifiers.mpr (.inl hn)

theorem mem_of_mem_subtypes (ht : u ∈ r.subtypes t) : u ∈ r.types :=
  below_subset t.oid r.types ht

end Registry

/-! ### Small schemas -/

/-- Common names, which are compared without regard to case. -/
def AttributeType.commonName : AttributeType :=
  { oid := "2.5.4.3", names := ["cn", "commonname"], equality := some .caseIgnoreMatch }

namespace Registry

/-- The schema that knows of common names only. -/
def people : Registry := ⟨[.commonName]⟩

theorem built_people : people.Built := by
  have h : Registry.empty.register .commonName = .ok (.commonName, people) := by decide +kernel
  exact Built.empty.register h

theorem lowercaseOids_people : people.LowercaseOids :=
  lowercaseOids_of_numeric fun t ht => by
    obtain rfl := List.mem_singleton.mp ht
    decide +kernel

end Registry

/-- Surnames, which are compared without regard to case, also in parts. -/
def AttributeType.surname : AttributeType :=
  { oid := "2.5.4.4", names := ["sn", "surname"], equality := some .caseIgnoreMatch,
    substring := some .caseIgnoreSubstringsMatch }

/-- The schema that knows of surnames only. -/
def Registry.surnames : Registry := ⟨[.surname]⟩

end Directory
