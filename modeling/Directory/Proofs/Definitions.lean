import Directory.Proofs.Subtypes
import Directory.Schema.Definition
import Mathlib.Data.List.Forall2

/-!
# What definitions stand for

A definition names its rules and its superior. What attribute type it stands for depends on the
definitions around it: `Denotes ds d t` says that among the definitions `ds`, in whatever order they
are, `d` stands for the type `t`. If no two definitions share an identifier, there is at most one
such type (`Denotes.unique`).

A registry lists definitions if its types are what they stand for, one after the other
(`Registry.Lists`). `Lists.define` and `Lists.exists_define` say what registering one more
definition leads to, and when it can be registered.
-/

namespace Directory

namespace Text

/-- A text without blanks has none to trim. -/
theorem trim_eq_self {cs : List Char} (h : ∀ c ∈ cs, isBlank c = false) : trim cs = cs := by
  have hdrop : ∀ as : List Char, (∀ a ∈ as, isBlank a = false) → as.dropWhile isBlank = as := by
    intro as has
    cases as with
    | nil => rfl
    | cons a as => rw [List.dropWhile_cons, has a List.mem_cons_self, if_neg Bool.false_ne_true]
  rw [trim, trimEnd, trimStart, hdrop cs h,
    hdrop cs.reverse fun c hc => h c (List.mem_reverse.mp hc), List.reverse_reverse]

/-- Neither a dot nor a digit is a blank. -/
theorem isBlank_eq_false_of_numeric {c : Char} (h : (c == '.' || c.isDigit) = true) :
    isBlank c = false := by
  have hranges : ∀ r ∈ blankRanges, r.2 ≤ 0x20 ∨ 0x3A ≤ r.1 := by decide
  have hbounds := bounds_of_numeric h
  rw [Bool.eq_false_iff, ne_eq, isBlank, inRanges_iff]
  rintro ⟨r, hr, hlo, hhi⟩
  have := hranges r hr
  omega

end Text

namespace AttributeType

/-- The type with its names in lowercase. -/
def inLowercase (t : AttributeType) : AttributeType := { t with names := t.names.map lowercase }

end AttributeType

namespace Definition

variable {ds ds' : List Definition} {d d' : Definition} {t t' : AttributeType}

/-- What the type answers to: the names in lowercase, then the OID. -/
def identifiers (d : Definition) : List String := d.names.map lowercase ++ [d.oid]

/-- The OID consists of digits and dots, and of one of them at least. -/
def HasNumericOid (d : Definition) : Prop :=
  d.oid ≠ "" ∧ (d.oid.toList.all fun c => c == '.' || c.isDigit) = true

instance : DecidablePred HasNumericOid := fun _ => inferInstanceAs (Decidable (_ ∧ _))

/-- There is a matching rule for each name of a rule. -/
def RulesKnown (d : Definition) : Prop :=
  ∀ name, d.equality = some name ∨ d.ordering = some name ∨ d.substring = some name →
    ∃ rule, MatchingRule.named? name = some rule

/-- The definitions have no identifier in common. -/
def Apart (d d' : Definition) : Prop := ∀ id ∈ d.identifiers, id ∉ d'.identifiers

/-- Among the definitions, the second is what the first names as its superior, in any letter
case. -/
def Extends (ds : List Definition) (d d' : Definition) : Prop :=
  d ∈ ds ∧ d' ∈ ds ∧ ∃ name, d.superior = some name ∧ lowercase name ∈ d'.identifiers

theorem oid_mem_identifiers (d : Definition) : d.oid ∈ d.identifiers := by simp [identifiers]

/-! ### Looking up the rules -/

theorem resolveRule_eq_ok_iff {oid : String} {name : Option String} :
    (∃ rule, resolveRule oid name = .ok rule) ↔
      ∀ n, name = some n → ∃ rule, MatchingRule.named? n = some rule := by
  cases name with
  | none => simp [resolveRule]
  | some n =>
    rw [resolveRule]
    cases hrule : MatchingRule.named? n with
    | none => simp [hrule]
    | some rule => simp [hrule]

/-- The type has the OID, the names and the superior of its definition. -/
theorem resolve_eq_ok (h : d.resolve = .ok t) :
    t.oid = d.oid ∧ t.names = d.names ∧ t.superior = d.superior ∧ d.RulesKnown := by
  rw [resolve] at h
  split at h
  · cases h
  · obtain ⟨eq, heq, h⟩ := bind_eq_ok_iff.mp h
    obtain ⟨ord, hord, h⟩ := bind_eq_ok_iff.mp h
    obtain ⟨sub, hsub, h⟩ := bind_eq_ok_iff.mp h
    cases h
    refine ⟨rfl, rfl, rfl, ?_⟩
    rintro name (hname | hname | hname)
    · exact resolveRule_eq_ok_iff.mp ⟨eq, heq⟩ name hname
    · exact resolveRule_eq_ok_iff.mp ⟨ord, hord⟩ name hname
    · exact resolveRule_eq_ok_iff.mp ⟨sub, hsub⟩ name hname

theorem HasNumericOid.lowercase_oid (h : d.HasNumericOid) : lowercase d.oid = d.oid :=
  lowercase_eq_self_of_numeric h.2

theorem exists_resolve (hoid : d.HasNumericOid) (hrules : d.RulesKnown) :
    ∃ t, d.resolve = .ok t := by
  have hblank : Text.trim d.oid.toList ≠ [] := by
    rw [Text.trim_eq_self]
    · simpa using hoid.1
    · intro c hc
      exact Text.isBlank_eq_false_of_numeric (List.all_eq_true.mp hoid.2 c hc)
  obtain ⟨eq, heq⟩ := resolveRule_eq_ok_iff.mpr fun n hn => hrules n (.inl hn)
  obtain ⟨ord, hord⟩ := resolveRule_eq_ok_iff.mpr fun n hn => hrules n (.inr (.inl hn))
  obtain ⟨sub, hsub⟩ := resolveRule_eq_ok_iff.mpr fun n hn => hrules n (.inr (.inr hn))
  rw [resolve, if_neg hblank]
  exact ⟨_, bind_eq_ok_iff.mpr ⟨eq, heq, bind_eq_ok_iff.mpr ⟨ord, hord,
    bind_eq_ok_iff.mpr ⟨sub, hsub, rfl⟩⟩⟩⟩

/-! ### The type of a definition -/

/-- Among the definitions, the definition stands for the type: it has the rules that the definition
names, and takes those that it does not name from the type of its superior. -/
inductive Denotes (ds : List Definition) : Definition → AttributeType → Prop where
  | top {d : Definition} {t : AttributeType} :
      d ∈ ds → d.resolve = .ok t → d.superior = none → Denotes ds d t.inLowercase
  | extend {d d' : Definition} {t sup : AttributeType} {name : String} :
      d ∈ ds → d.resolve = .ok t → d.superior = some name → d' ∈ ds →
      lowercase name ∈ d'.identifiers → Denotes ds d' sup →
      Denotes ds d (Registry.inherit t.inLowercase sup)

theorem Denotes.mem (h : Denotes ds d t) : d ∈ ds := by
  cases h with
  | top hd => exact hd
  | extend hd => exact hd

/-- More definitions do not change what a definition stands for. -/
theorem Denotes.mono (hsub : ds ⊆ ds') (h : Denotes ds d t) : Denotes ds' d t := by
  induction h with
  | top hd hres hsup => exact .top (hsub hd) hres hsup
  | extend hd hres hsup hd' hname _ ih => exact .extend (hsub hd) hres hsup (hsub hd') hname ih

theorem Denotes.oid_eq (h : Denotes ds d t) : t.oid = d.oid := by
  cases h with
  | top _ hres => exact (resolve_eq_ok hres).1
  | extend _ hres => exact (resolve_eq_ok hres).1

theorem identifiers_inLowercase (h : d.resolve = .ok t) :
    t.inLowercase.identifiers = d.identifiers := by
  obtain ⟨hoid, hnames, -⟩ := resolve_eq_ok h
  rw [AttributeType.identifiers, AttributeType.inLowercase, hnames, hoid, identifiers]

theorem Denotes.identifiers_eq (h : Denotes ds d t) : t.identifiers = d.identifiers := by
  cases h with
  | top _ hres => exact identifiers_inLowercase hres
  | extend _ hres => exact identifiers_inLowercase hres

theorem Denotes.rulesKnown (h : Denotes ds d t) : d.RulesKnown := by
  cases h with
  | top _ hres => exact (resolve_eq_ok hres).2.2.2
  | extend _ hres => exact (resolve_eq_ok hres).2.2.2

theorem Apart.symm (h : Apart d d') : Apart d' d := fun id hid hid' => h id hid' hid

/-- Definitions that are apart from one another can be told by any of their identifiers. -/
theorem eq_of_shared (hapart : ds.Pairwise Apart) {id : String} (hd : d ∈ ds) (hd' : d' ∈ ds)
    (hid : id ∈ d.identifiers) (hid' : id ∈ d'.identifiers) : d = d' := by
  by_contra hne
  have : Std.Symm Apart := ⟨fun _ _ => Apart.symm⟩
  exact hapart.forall hd hd' hne id hid hid'

theorem Denotes.unique (hapart : ds.Pairwise Apart) (h : Denotes ds d t) (h' : Denotes ds d t') :
    t = t' := by
  induction h generalizing t' with
  | top _ hres hsup =>
    cases h' with
    | top _ hres' => rw [Except.ok.inj (hres.symm.trans hres')]
    | extend _ _ hsup' => rw [hsup] at hsup'; cases hsup'
  | extend _ hres hsup hd' hname _ ih =>
    cases h' with
    | top _ _ hsup' => rw [hsup] at hsup'; cases hsup'
    | extend _ hres' hsup' hd'' hname' hden' =>
      obtain rfl := Option.some.inj (hsup.symm.trans hsup')
      obtain rfl := eq_of_shared hapart hd' hd'' hname hname'
      rw [Except.ok.inj (hres.symm.trans hres'), ih hden']

/-- The superiors of a definition that stands for a type come to an end. -/
theorem Denotes.acc (hapart : ds.Pairwise Apart) (h : Denotes ds d t) :
    Acc (fun d' d => Extends ds d d') d := by
  induction h with
  | top _ _ hsup =>
    refine .intro _ fun d' hext => ?_
    obtain ⟨-, -, name, hsup', -⟩ := hext
    rw [hsup] at hsup'
    cases hsup'
  | extend _ _ hsup hd' hname _ ih =>
    refine .intro _ fun d'' hext => ?_
    obtain ⟨-, hd'', name', hsup', hname'⟩ := hext
    obtain rfl := Option.some.inj (hsup.symm.trans hsup')
    obtain rfl := eq_of_shared hapart hd' hd'' hname hname'
    exact ih

end Definition

namespace Registry

open Definition

variable {r r' : Registry} {t t' : AttributeType} {ds : List Definition} {d : Definition}
  {id name : String}

/-! ### When registration succeeds -/

theorem attach_eq_ok_iff : r.attach t = .ok t' ↔
    t.superior = none ∧ t' = t ∨
      ∃ name sup, t.superior = some name ∧ r.lookup? name = some sup ∧ t' = inherit t sup := by
  rw [attach]
  cases hsup : t.superior with
  | none => simp [eq_comm]
  | some name =>
    cases hlookup : r.lookup? name with
    | none => simp [hlookup]
    | some sup => simp [hlookup, eq_comm]

theorem register_eq_ok_iff : r.register t = .ok (t', r') ↔
    (∀ id ∈ t.inLowercase.identifiers, r.uses id = false) ∧ r.attach t.inLowercase = .ok t' ∧
      r' = ⟨r.types ++ [t']⟩ := by
  have hfree : (∀ id ∈ t.inLowercase.identifiers, r.uses id = false) ↔
      r.uses t.oid = false ∧ (t.names.map lowercase).find? r.uses = none := by
    simp only [AttributeType.mem_identifiers, List.find?_eq_none, or_imp, forall_and,
      forall_eq, Bool.not_eq_true]
    exact and_comm
  rw [hfree, register]
  dsimp only
  cases huses : r.uses t.oid with
  | true => simp
  | false =>
    cases hfind : (t.names.map lowercase).find? r.uses with
    | some name => simp
    | none =>
      simp only [Bool.false_eq_true, if_false, true_and, map_eq_ok_iff, Prod.mk.injEq]
      constructor
      · rintro ⟨u, hu, rfl, rfl⟩
        exact ⟨hu, rfl⟩
      · rintro ⟨hu, rfl⟩
        exact ⟨t', hu, rfl, rfl⟩

theorem define_eq_ok_iff : r.define d = .ok r' ↔
    ∃ t t', d.resolve = .ok t ∧ (∀ id ∈ d.identifiers, r.uses id = false) ∧
      r.attach t.inLowercase = .ok t' ∧ r' = ⟨r.types ++ [t']⟩ := by
  rw [define, bind_eq_ok_iff]
  refine exists_congr fun t => ?_
  constructor
  · rintro ⟨hres, h⟩
    obtain ⟨⟨t', r''⟩, hreg, h⟩ := bind_eq_ok_iff.mp h
    cases h
    obtain ⟨hfree, hattach, heq⟩ := register_eq_ok_iff.mp hreg
    exact ⟨t', hres, identifiers_inLowercase hres ▸ hfree, hattach, heq⟩
  · rintro ⟨t', hres, hfree, hattach, heq⟩
    have hreg : r.register t = .ok (t', r') :=
      register_eq_ok_iff.mpr ⟨identifiers_inLowercase hres ▸ hfree, hattach, heq⟩
    exact ⟨hres, bind_eq_ok_iff.mpr ⟨(t', r'), hreg, rfl⟩⟩

/-! ### Registries of definitions -/

/-- The types of the registry are what the definitions stand for, in their order. -/
structure Lists (r : Registry) (ds : List Definition) : Prop where
  built : r.Built
  apart : ds.Pairwise Apart
  lowercaseOid : ∀ d ∈ ds, lowercase d.oid = d.oid
  denotes : List.Forall₂ (Denotes ds) ds r.types

theorem lists_empty : Registry.empty.Lists [] where
  built := .empty
  apart := .nil
  lowercaseOid _ hd := absurd hd List.not_mem_nil
  denotes := .nil

theorem Lists.mem_types_iff (h : r.Lists ds) : t ∈ r.types ↔ ∃ d, Denotes ds d t := by
  constructor
  · intro ht
    obtain ⟨d, -, hden⟩ := exists_of_mem_right h.denotes ht
    exact ⟨d, hden⟩
  · rintro ⟨d, hden⟩
    obtain ⟨t', ht', hden'⟩ := exists_of_mem_left h.denotes hden.mem
    exact hden.unique h.apart hden' ▸ ht'

theorem Lists.exists_denotes (h : r.Lists ds) (hd : d ∈ ds) : ∃ t, Denotes ds d t := by
  obtain ⟨t, -, hden⟩ := exists_of_mem_left h.denotes hd
  exact ⟨t, hden⟩

theorem Lists.lowercaseOids (h : r.Lists ds) : r.LowercaseOids := by
  intro t ht
  obtain ⟨d, hden⟩ := h.mem_types_iff.mp ht
  rw [hden.oid_eq]
  exact h.lowercaseOid d hden.mem

theorem Lists.uses_iff (h : r.Lists ds) : r.uses id = true ↔ ∃ d ∈ ds, id ∈ d.identifiers := by
  rw [uses, Option.isSome_iff_exists]
  simp only [h.built.find?_eq_some_iff, h.mem_types_iff]
  constructor
  · rintro ⟨t, ⟨d, hden⟩, hid⟩
    exact ⟨d, hden.mem, hden.identifiers_eq ▸ hid⟩
  · rintro ⟨d, hd, hid⟩
    obtain ⟨t, hden⟩ := h.exists_denotes hd
    exact ⟨t, ⟨d, hden⟩, hden.identifiers_eq ▸ hid⟩

theorem Lists.lookup?_eq_some_iff (h : r.Lists ds) :
    r.lookup? name = some t ↔ ∃ d, Denotes ds d t ∧ lowercase name ∈ d.identifiers := by
  rw [← resolve_eq_ok_iff_lookup?, resolve_eq_ok_iff h.built h.lowercaseOids, h.mem_types_iff]
  constructor
  · rintro ⟨⟨d, hden⟩, hname⟩
    exact ⟨d, hden, hden.identifiers_eq ▸ hname⟩
  · rintro ⟨d, hden, hname⟩
    exact ⟨⟨d, hden⟩, hden.identifiers_eq ▸ hname⟩

/-- A definition is ready when it names no superior, or one of the definitions. -/
theorem Lists.admits_iff (h : r.Lists ds) : r.admits d = true ↔
    ∀ name, d.superior = some name → ∃ d' ∈ ds, lowercase name ∈ d'.identifiers := by
  rw [admits]
  cases d.superior with
  | none => simp
  | some name =>
    simp only [Option.isSome_iff_exists, h.lookup?_eq_some_iff, Option.some.injEq, forall_eq']
    constructor
    · rintro ⟨t, d', hden, hname⟩
      exact ⟨d', hden.mem, hname⟩
    · rintro ⟨d', hd', hname⟩
      obtain ⟨t, hden⟩ := h.exists_denotes hd'
      exact ⟨t, d', hden, hname⟩

/-- One more definition is listed behind the others. -/
theorem Lists.define (h : r.Lists ds) (hoid : lowercase d.oid = d.oid)
    (hdef : r.define d = .ok r') : r'.Lists (ds ++ [d]) := by
  obtain ⟨t, t', hres, hfree, hattach, rfl⟩ := define_eq_ok_iff.mp hdef
  have hreg : r.register t = .ok (t', ⟨r.types ++ [t']⟩) :=
    register_eq_ok_iff.mpr ⟨identifiers_inLowercase hres ▸ hfree, hattach, rfl⟩
  have hsub : ds ⊆ ds ++ [d] := List.subset_append_left ds [d]
  have hd : d ∈ ds ++ [d] := by simp
  have hden : Denotes (ds ++ [d]) d t' := by
    obtain ⟨-, -, hsup, -⟩ := resolve_eq_ok hres
    rcases attach_eq_ok_iff.mp hattach with ⟨hnone, rfl⟩ | ⟨name, sup, hsome, hlookup, rfl⟩
    · exact .top hd hres (hsup.symm.trans hnone)
    · obtain ⟨d', hden', hname⟩ := h.lookup?_eq_some_iff.mp hlookup
      exact .extend hd hres (hsup.symm.trans hsome) (hsub hden'.mem) hname (hden'.mono hsub)
  refine ⟨h.built.register hreg, ?_, ?_, ?_⟩
  · rw [List.pairwise_append]
    refine ⟨h.apart, List.pairwise_singleton _ _, fun d' hd' e he id hid' hid => ?_⟩
    obtain rfl := List.mem_singleton.mp he
    have hused := h.uses_iff.mpr ⟨d', hd', hid'⟩
    rw [hfree id hid] at hused
    cases hused
  · intro e he
    rcases List.mem_append.mp he with he | he
    · exact h.lowercaseOid e he
    · rwa [List.mem_singleton.mp he]
  · exact List.rel_append (h.denotes.imp fun _ _ hden => hden.mono hsub) (.cons hden .nil)

/-- A definition that is ready can be registered if its rules are known and none of its identifiers
is taken. -/
theorem Lists.exists_define (h : r.Lists ds) (hoid : d.HasNumericOid) (hrules : d.RulesKnown)
    (hapart : ∀ d' ∈ ds, Apart d' d) (hready : r.admits d = true) : ∃ r', r.define d = .ok r' := by
  obtain ⟨t, hres⟩ := exists_resolve hoid hrules
  have hfree : ∀ id ∈ d.identifiers, r.uses id = false := by
    intro id hid
    rw [Bool.eq_false_iff, ne_eq, h.uses_iff]
    rintro ⟨d', hd', hid'⟩
    exact hapart d' hd' id hid' hid
  have hattach : ∃ t', r.attach t.inLowercase = .ok t' := by
    obtain ⟨-, -, hsup, -⟩ := resolve_eq_ok hres
    cases hd : d.superior with
    | none => exact ⟨_, attach_eq_ok_iff.mpr (.inl ⟨hsup.trans hd, rfl⟩)⟩
    | some name =>
      rw [admits, hd] at hready
      obtain ⟨sup, hlookup⟩ := Option.isSome_iff_exists.mp hready
      exact ⟨_, attach_eq_ok_iff.mpr (.inr ⟨name, sup, hsup.trans hd, hlookup, rfl⟩)⟩
  obtain ⟨t', hattach⟩ := hattach
  exact ⟨_, define_eq_ok_iff.mpr ⟨t, t', hres, hfree, hattach, rfl⟩⟩

end Registry

end Directory
