import Directory.Proofs.LeafMeaning
import Directory.Proofs.Registry
import Directory.Proofs.StoreContents

/-!
# Two ways to the values of a type

An index on a type is filled with the values that an entry has under any description of a covered
type. An assertion without an index looks values up instead: those of the asserted type and of each
subtype, for each of them under the first of its identifiers that the entry uses.

* `Entry.Described` is the first reading of an entry, and `Entry.lookedUp` the second. What is
  looked up is described (`described_of_mem_lookedUp`). Where the converse holds up to canonical
  forms the values are overt (`Entry.Overt`); it fails for an entry that has values of one type
  under two of its identifiers.
* An assertion bound to a store reads entries in the one way or the other, and keeps to it in all
  later stores: those stored at the time (`reads_bound_of_index`), or the entry at hand
  (`reads_bound_of_no_index`). Overt values are read alike in both (`reads_bound_of_overt`).
-/

namespace Directory

namespace Entry

/-- The entry has this value under a description of the type or of one of its subtypes. -/
def Described (r : Registry) (t : AttributeType) (e : Entry) (raw : String) : Prop :=
  ∃ description raws u, (description, raws) ∈ e.attributes.toList ∧ r.resolve description = .ok u ∧
    (u = t ∨ u ∈ r.subtypes t) ∧ raw ∈ raws

/-- The values that are looked up for the type. -/
def lookedUp (r : Registry) (t : AttributeType) (e : Entry) : List String :=
  (t :: r.subtypes t).flatMap fun u => (e.valuesOf u).getD []

/-- For each value that the entry has of the type, that value or one of the same canonical form is
looked up. -/
def Overt (r : Registry) (t : AttributeType) (rule : MatchingRule) (e : Entry) : Prop :=
  ∀ raw, e.Described r t raw → ∃ raw' ∈ e.lookedUp r t, rule.normalize raw' = rule.normalize raw

variable {r : Registry} {t u : AttributeType} {e : Entry} {raw : String}

theorem mem_valuesOf (h : raw ∈ (e.valuesOf u).getD []) :
    ∃ id ∈ u.identifiers, ∃ raws, (lowercase id, raws) ∈ e.attributes.toList ∧ raw ∈ raws := by
  cases hvalues : e.valuesOf u with
  | none => rw [hvalues] at h; cases h
  | some raws =>
    rw [hvalues] at h
    obtain ⟨id, hid, hfind⟩ := List.exists_of_findSome?_eq_some hvalues
    exact ⟨id, hid, raws, SortedMap.find?_eq_some_iff.mp hfind, h⟩

/-- What is looked up is described. -/
theorem described_of_mem_lookedUp (hr : r.Built) (ho : r.LowercaseOids) (ht : t ∈ r.types)
    (h : raw ∈ e.lookedUp r t) : e.Described r t raw := by
  obtain ⟨u, hu, hraw⟩ := List.mem_flatMap.mp h
  have hkind : u = t ∨ u ∈ r.subtypes t := List.mem_cons.mp hu
  have hreg : u ∈ r.types := by
    rcases hkind with rfl | hsub
    · exact ht
    · exact Registry.mem_of_mem_subtypes hsub
  obtain ⟨id, hid, raws, hmem, hraw⟩ := mem_valuesOf hraw
  have hres : r.resolve (lowercase id) = .ok u := by
    rw [Registry.resolve_eq_ok_iff hr ho, lowercase_lowercase,
      hr.identifier_lowercase ho hreg hid]
    exact ⟨hreg, hid⟩
  exact ⟨lowercase id, raws, u, hmem, hres, hkind, hraw⟩

end Entry

/-- The keys of an index on a type and its subtypes come from the values of the type. -/
theorem AttributeIndex.draws_iff {r : Registry} {ix : AttributeIndex} {t : AttributeType}
    (hcovers : ∀ u ∈ r.types, ix.covers u.oid = true ↔ u = t ∨ u ∈ r.subtypes t) {e : Entry}
    {key : NormalValue} :
    ix.Draws r e key ↔ ∃ raw, e.Described r t raw ∧ ix.normalize raw = .ok key := by
  constructor
  · rintro ⟨description, raws, u, raw, hmem, hu, hcov, hraw, hkey⟩
    have hkind := (hcovers u (Registry.resolve_mem hu)).mp hcov
    exact ⟨raw, ⟨description, raws, u, hmem, hu, hkind, hraw⟩, hkey⟩
  · rintro ⟨raw, ⟨description, raws, u, hmem, hu, hkind, hraw⟩, hkey⟩
    have hcov := (hcovers u (Registry.resolve_mem hu)).mpr hkind
    exact ⟨description, raws, u, raw, hmem, hu, hcov, hraw, hkey⟩

/-! ### Indexes that stay -/

namespace Store

variable {r : Registry} {s s' : Store} {ix : AttributeIndex}

/-- The indexes of the first store are there in the second, with whatever contents. -/
def Later (s m : Store) : Prop := ∀ ix ∈ s.indexes, ∃ ix' ∈ m.indexes, ix'.bare = ix.bare

theorem Later.refl (s : Store) : s.Later s := fun ix hix => ⟨ix, hix, rfl⟩

theorem Later.trans {m : Store} (h : s.Later s') (h' : s'.Later m) : s.Later m := by
  intro ix hix
  obtain ⟨ix', hix', hbare⟩ := h ix hix
  obtain ⟨ix'', hix'', hbare'⟩ := h' ix' hix'
  exact ⟨ix'', hix'', hbare'.trans hbare⟩

theorem later_apply {w : StoreWrite} (hw : w.apply r s = .ok s') : s.Later s' := by
  intro ix hix
  cases w with
  | addIndex attr includesSubtypes =>
    obtain ⟨t, ix', -, -, -, keys, -, rfl⟩ := addIndex_eq_ok_iff.mp hw
    exact ⟨ix, List.mem_append_left _ hix, rfl⟩
  | addEntry e =>
    obtain ⟨-, -, keys, -, rfl⟩ := addEntry_eq_ok_iff.mp hw
    exact ⟨_, List.mem_map_of_mem hix, rfl⟩
  | deleteEntry id =>
    cases hw
    exact ⟨_, List.mem_map_of_mem hix, rfl⟩

/-- An index is found by the OID of its attribute. -/
theorem indexAt?_eq_some (hs : s.Synced r) (hix : ix ∈ s.indexes) :
    s.indexAt? ix.attr.oid = some ix := by
  cases hfind : s.indexAt? ix.attr.oid with
  | none => exact absurd (List.find?_eq_none.mp hfind ix hix) (by simp)
  | some ix' =>
    have hoid : ix'.attr.oid = ix.attr.oid := by simpa using List.find?_some hfind
    rw [List.inj_on_of_nodup_map hs.distinct (List.mem_of_find?_eq_some hfind) hix hoid]

/-- An index that can answer assertions on a type is an index on the type, and covers the type and
its subtypes. -/
theorem usableIndexFor?_eq_some (hr : r.Built) (ho : r.LowercaseOids) (hs : s.Checked r)
    {t : AttributeType} (ht : t ∈ r.types) (h : s.usableIndexFor? r t = some ix) :
    ix ∈ s.indexes ∧ ix.attr = t ∧ t.equality = some ix.rule ∧
      ∀ u ∈ r.types, ix.covers u.oid = true ↔ u = t ∨ u ∈ r.subtypes t := by
  obtain ⟨hfind, husable⟩ := Option.filter_eq_some_iff.mp h
  have hix : ix ∈ s.indexes := List.mem_of_find?_eq_some hfind
  obtain ⟨⟨attr, hattr⟩, hcreate⟩ := hs.declared ix hix
  have hknown : ix.attr.isKnownAs t.oid = true := by simpa using List.find?_some hfind
  obtain rfl := Registry.eq_of_isKnownAs hr ho ht (Registry.resolve_mem hattr) hknown
  obtain ⟨rule, hrule, hbare⟩ := Store.create_eq_ok_iff.mp hcreate
  rw [AttributeIndex.bare, AttributeIndex.mk.injEq] at hbare
  obtain ⟨-, rfl, -, hcovered, -⟩ := hbare
  have hall : (if ix.includesSubtypes then r.subtypes ix.attr else []) = r.subtypes ix.attr := by
    rcases Bool.or_eq_true _ _ ▸ husable with hall | hnone
    · rw [hall, if_pos rfl]
    · rw [List.isEmpty_iff.mp hnone, ite_self]
  rw [hall] at hcovered
  exact ⟨hix, rfl, hrule, fun u hu =>
    AttributeIndex.covers_iff hr ht (Registry.below_subset _ _) hcovered hu⟩

/-- The values that a stored entry has of an indexed type have keys. -/
theorem exists_key_of_described (hs : s.Checked r) (hix : ix ∈ s.indexes) {t : AttributeType}
    (hcovers : ∀ u ∈ r.types, ix.covers u.oid = true ↔ u = t ∨ u ∈ r.subtypes t) {id : EntryId}
    {e : Entry} (he : s.entry? id = some e) {raw : String} (h : e.Described r t raw) :
    ∃ key, ix.normalize raw = .ok key := by
  obtain ⟨description, raws, u, hmem, hu, hkind, hraw⟩ := h
  obtain ⟨u', hu', hall⟩ := hs.accepted ix hix _ (entry?_eq_some_iff.mp he) _ hmem
  obtain rfl : u = u' := Except.ok.inj (hu.symm.trans hu')
  exact hall ((hcovers u (Registry.resolve_mem hu)).mpr hkind) raw hraw

end Store

/-! ### What bound assertions read -/

namespace Leaf

/-- The assertion of a condition on a type, bound to a store. -/
def bound (s : Store) (r : Registry) (t : AttributeType) (c : Condition) : Leaf :=
  let index := (s.usableIndexFor? r t).filter c.compatible
  { attr := t
    subtypes := r.subtypes t
    condition := c
    index := index.map AttributeIndex.attr
    estimate :=
      match index with
      | some ix => c.estimate s ix
      | none => unknownEstimate }

variable {r : Registry} {s m : Store} {a : Assertion} {l : Leaf} {t : AttributeType} {c : Condition}
  {e : Entry}

/-- Binding an assertion fails for the same reasons in every store. -/
theorem bind_eq_bound_iff :
    Leaf.bind s r a = .ok l ↔
      ∃ t c, r.resolve a.attr = .ok t ∧ conditionOf t a = .ok c ∧ bound s r t c = l := by
  unfold Leaf.bind
  simp only [bind_eq_ok_iff, mapError_eq_ok_iff]
  constructor
  · rintro ⟨t, ht, c, hc, h⟩
    exact ⟨t, c, ht, hc, Except.ok.inj h⟩
  · rintro ⟨t, c, ht, hc, rfl⟩
    exact ⟨t, ht, c, hc, rfl⟩

/-- What can be said of a bound assertion is said of the condition on its type. -/
theorem exists_bind_congr {P : Leaf → Prop} {Q : AttributeType → Condition → Prop}
    (h : ∀ t ∈ r.types, ∀ c, conditionOf t a = .ok c → (P (bound s r t c) ↔ Q t c)) :
    (∃ l, Leaf.bind s r a = .ok l ∧ P l) ↔
      ∃ t c, r.resolve a.attr = .ok t ∧ conditionOf t a = .ok c ∧ Q t c := by
  simp only [bind_eq_bound_iff]
  constructor
  · rintro ⟨_, ⟨t, c, ht, hc, rfl⟩, hP⟩
    exact ⟨t, c, ht, hc, (h t (Registry.resolve_mem ht) c hc).mp hP⟩
  · rintro ⟨t, c, ht, hc, hQ⟩
    have hP := (h t (Registry.resolve_mem ht) c hc).mpr hQ
    exact ⟨_, ⟨t, c, ht, hc, rfl⟩, hP⟩

/-- The condition of an equality compares with the canonical form of the value under the equality
rule. -/
theorem equalTo_eq_ok_iff {approx : Bool} {raw : String} :
    conditionOf.equalTo t a approx raw = .ok c ↔
      ∃ rule k, t.equality = some rule ∧ rule.normalize raw = .ok k ∧
        .equals approx rule k = c := by
  unfold conditionOf.equalTo
  cases t.equality with
  | none => simp
  | some rule => simp [mapError_eq_ok_iff, map_eq_ok_iff]

/-- The condition of an ordering assertion compares with the canonical form of the value under the
ordering rule, or else under the equality rule. -/
theorem onSide_eq_ok_iff {side : Side} {raw : String} :
    conditionOf.onSide t side raw = .ok c ↔
      ∃ rule k, t.orderingRule? = some rule ∧ rule.normalize raw = .ok k ∧
        .bounded side rule k = c := by
  unfold conditionOf.onSide
  cases t.orderingRule? with
  | none => simp
  | some rule => simp [mapError_eq_ok_iff, map_eq_ok_iff]

/-- The condition of a substring assertion is the canonical form of its pattern, where the substring
rule of the type makes texts. -/
theorem conditionOf_substring_iff {attr : String} {raw : Pattern} :
    conditionOf t (.substring attr raw) = .ok c ↔
      ∃ rule p, t.substring = some rule ∧ rule.normalizer.isTextual = true ∧
        raw.normalize rule.normalizer = .ok p ∧ c = .like rule p := by
  rw [conditionOf]
  constructor
  · intro h
    split at h
    · cases h
    · next rule hrule =>
      split at h
      · next htextual =>
        split at h
        · next p hp => exact ⟨rule, p, hrule, htextual, hp, (Except.ok.inj h).symm⟩
        · cases h
      · cases h
  · rintro ⟨rule, p, hrule, htextual, hp, rfl⟩
    simp only [hrule, htextual, hp, if_true]

/-- The rule of an equality condition is the equality rule of its type. -/
theorem rule_of_conditionOf {approx : Bool} {rule : MatchingRule} {value : NormalValue}
    (h : conditionOf t a = .ok (.equals approx rule value)) : t.equality = some rule := by
  have hequal : ∀ b raw, conditionOf.equalTo t a b raw = .ok (.equals approx rule value) →
      t.equality = some rule := fun b raw h => by
    obtain ⟨rule', k, hrule, -, heq⟩ := equalTo_eq_ok_iff.mp h
    cases heq
    exact hrule
  have hside : ∀ side raw, conditionOf.onSide t side raw ≠ .ok (.equals approx rule value) :=
    fun side raw h => by
      obtain ⟨rule', k, -, -, heq⟩ := onSide_eq_ok_iff.mp h
      cases heq
  cases a with
  | equality attr raw => exact hequal false raw h
  | approxMatch attr raw => exact hequal true raw h
  | greaterEq attr raw => exact absurd h (hside _ raw)
  | lessEq attr raw => exact absurd h (hside _ raw)
  | presence attr => cases h
  | substring attr pattern =>
    simp only [conditionOf] at h
    split at h
    · cases h
    · split at h
      · split at h <;> cases h
      · cases h

/-- Where an index can answer, values are read under the rule of the assertion as they are under
the rule of the index. -/
theorem normalize_eq_of_compatible {ix : AttributeIndex} {rule : MatchingRule}
    (hc : conditionOf t a = .ok c) (hix : t.equality = some ix.rule)
    (hcompatible : c.compatible ix = true) (hrule : c.rule? = some rule) (raw : String) :
    rule.normalize raw = ix.normalize raw := by
  cases c with
  | equals approx rule' value =>
    obtain rfl : rule' = rule := Option.some.inj hrule
    have hsame := (rule_of_conditionOf hc).symm.trans hix
    rw [AttributeIndex.normalize, Option.some.inj hsame]
  | bounded side rule' bound =>
    obtain rfl : rule' = rule := Option.some.inj hrule
    simp only [Condition.compatible, Bool.and_eq_true, beq_iff_eq] at hcompatible
    rw [AttributeIndex.normalize, MatchingRule.normalize, MatchingRule.normalize, hcompatible.1]
  | present => cases hrule
  | like rule' pattern =>
    obtain rfl : rule' = rule := Option.some.inj hrule
    simp only [Condition.compatible, beq_iff_eq] at hcompatible
    rw [AttributeIndex.normalize, MatchingRule.normalize, MatchingRule.normalize, hcompatible]

/-- Where an index can answer, values with the same key satisfy the same assertions. -/
theorem accepts_of_same_key {ix : AttributeIndex} {raw raw' : String}
    (hc : conditionOf t a = .ok c) (hix : t.equality = some ix.rule)
    (hcompatible : c.compatible ix = true) (hkey : ix.normalize raw' = ix.normalize raw)
    (h : c.Accepts raw) : c.Accepts raw' := by
  cases hrule : c.rule? with
  | none =>
    obtain rfl := Condition.rule?_eq_none_iff.mp hrule
    exact Condition.accepts_present raw'
  | some rule =>
    have hread := normalize_eq_of_compatible hc hix hcompatible hrule
    rw [Condition.accepts_iff hrule] at h ⊢
    rwa [hread, hkey, ← hread]

/-- A leaf without an index reads the values that are looked up. -/
theorem reads_bound_of_no_index (h : (bound s r t c).index = none) :
    (bound s r t c).Reads m e ↔ ∃ raw ∈ e.lookedUp r t, c.Accepts raw := by
  have hix : (bound s r t c).index? m = none := by rw [index?, h]; rfl
  exact reads_of_no_index hix

/-- The index of a leaf, found again in a later store. -/
theorem exists_index_of_bound (hr : r.Built) (ho : r.LowercaseOids) (hs : s.Reachable r)
    (hm : m.Reachable r) (hlater : s.Later m) (ht : t ∈ r.types)
    (h : (bound s r t c).index ≠ none) :
    ∃ ix ∈ m.indexes, (bound s r t c).index? m = some ix ∧ t.equality = some ix.rule ∧
      c.compatible ix = true ∧
      ∀ u ∈ r.types, ix.covers u.oid = true ↔ u = t ∨ u ∈ r.subtypes t := by
  obtain ⟨t', ht'⟩ := Option.ne_none_iff_exists'.mp h
  obtain ⟨ix₀, hchosen, rfl⟩ := Option.map_eq_some_iff.mp ht'
  obtain ⟨husable, hcompatible⟩ := Option.filter_eq_some_iff.mp hchosen
  obtain ⟨hix₀, hattr, hrule, hcovers⟩ :=
    Store.usableIndexFor?_eq_some hr ho hs.checked ht husable
  -- the index may have other contents by now, but all that it was chosen for has stayed
  obtain ⟨ix, hix, hbare⟩ := hlater ix₀ hix₀
  obtain ⟨hattr', hrule', -, hcovered, -⟩ := (AttributeIndex.mk.injEq ..).mp hbare
  refine ⟨ix, hix, ?_, hrule' ▸ hrule, ?_, ?_⟩
  · rw [index?, ht']
    show m.indexAt? ix₀.attr.oid = some ix
    rw [← hattr']
    exact Store.indexAt?_eq_some hm.synced hix
  · show c.compatible ix.bare = true
    rw [hbare]
    exact hcompatible
  · show ∀ u ∈ r.types, ix.bare.covers u.oid = true ↔ u = t ∨ u ∈ r.subtypes t
    rw [hbare]
    exact hcovers

/-- A leaf with an index reads the values that the entry stored under the id has at the time, which
may be another entry than the one at hand. -/
theorem reads_bound_of_index (hr : r.Built) (ho : r.LowercaseOids) (hs : s.Reachable r)
    (hm : m.Reachable r) (hlater : s.Later m) (ht : t ∈ r.types) (hc : conditionOf t a = .ok c)
    (h : (bound s r t c).index ≠ none) :
    (bound s r t c).Reads m e ↔ ∃ e', Store.entry? m e.id = some e' ∧
      ∃ raw, e'.Described r t raw ∧ c.Accepts raw := by
  obtain ⟨ix, hix, hfound, hrule, hcompatible, hcovers⟩ :=
    exists_index_of_bound hr ho hs hm hlater ht h
  have hreads : (bound s r t c).Reads m e ↔
      ∃ key, (∃ e', Store.entry? m e.id = some e' ∧
        ∃ raw, e'.Described r t raw ∧ ix.normalize raw = .ok key) ∧ c.acceptsKey key = true := by
    rw [reads_of_index hfound, Condition.testIndex_holds_iff hm.synced hix]
    simp only [hm.synced.forward ix hix, AttributeIndex.draws_iff hcovers]
    rfl
  rw [hreads]
  cases hc' : c.rule? with
  | none =>
    obtain rfl := Condition.rule?_eq_none_iff.mp hc'
    constructor
    · rintro ⟨key, ⟨e', he', raw, hraw, -⟩, -⟩
      exact ⟨e', he', raw, hraw, Condition.accepts_present raw⟩
    · rintro ⟨e', he', raw, hraw, -⟩
      obtain ⟨key, hkey⟩ := Store.exists_key_of_described hm.checked hix hcovers he' hraw
      exact ⟨key, ⟨e', he', raw, hraw, hkey⟩, rfl⟩
  | some rule =>
    have hread := normalize_eq_of_compatible hc hrule hcompatible hc'
    simp only [Condition.accepts_iff hc', hread]
    constructor
    · rintro ⟨key, ⟨e', he', raw, hraw, hkey⟩, hacc⟩
      exact ⟨e', he', raw, hraw, key, hkey, hacc⟩
    · rintro ⟨e', he', raw, hraw, key, hkey, hacc⟩
      exact ⟨key, ⟨e', he', raw, hraw, hkey⟩, hacc⟩

/-- With an index or without one, a leaf reads a stored entry as it is looked up if its values are
overt. -/
theorem reads_bound_of_overt (hr : r.Built) (ho : r.LowercaseOids) (hs : s.Reachable r)
    (hm : m.Reachable r) (hlater : s.Later m) (ht : t ∈ r.types) (hc : conditionOf t a = .ok c)
    (hovert : (bound s r t c).index ≠ none →
      ∀ rule, t.equality = some rule → e.Overt r t rule)
    (he : Store.entry? m e.id = some e) :
    (bound s r t c).Reads m e ↔ ∃ raw ∈ e.lookedUp r t, c.Accepts raw := by
  by_cases hnone : (bound s r t c).index = none
  · exact reads_bound_of_no_index hnone
  · obtain ⟨ix, -, -, hrule, hcompatible, -⟩ := exists_index_of_bound hr ho hs hm hlater ht hnone
    rw [reads_bound_of_index hr ho hs hm hlater ht hc hnone, he]
    simp only [Option.some.injEq, exists_eq_left']
    constructor
    · rintro ⟨raw, hraw, hacc⟩
      obtain ⟨raw', hraw', hkey⟩ := hovert hnone ix.rule hrule raw hraw
      exact ⟨raw', hraw', accepts_of_same_key hc hrule hcompatible hkey hacc⟩
    · rintro ⟨raw, hraw, hacc⟩
      exact ⟨raw, Entry.described_of_mem_lookedUp hr ho ht hraw, hacc⟩

end Leaf

/-! ### What a filter says of an entry -/

/-- The assertion holds of a value that is looked up. -/
def Assertion.HoldsLookedUp (r : Registry) (e : Entry) (a : Assertion) : Prop :=
  ∃ t c, r.resolve a.attr = .ok t ∧ Leaf.conditionOf t a = .ok c ∧
    ∃ raw ∈ e.lookedUp r t, c.Accepts raw

/-- The filter holds of the values of the entry that are looked up, whatever is stored. -/
def Entry.Meets (r : Registry) (f : Filter) (e : Entry) : Prop :=
  f.Holds (Assertion.HoldsLookedUp r e)

/-- Bound to an earlier store or to the present one, a filter holds of a stored entry that meets it,
if what the indexes can answer about is overt in the entry. -/
theorem Filter.readsIn_iff_meets {r : Registry} {s m : Store} {f : Filter} {e : Entry}
    (hr : r.Built) (ho : r.LowercaseOids) (hs : s.Reachable r) (hm : m.Reachable r)
    (hlater : s.Later m) (he : m.entry? e.id = some e)
    (hovert : ∀ t ∈ r.types, ∀ c, (Leaf.bound s r t c).index ≠ none →
      ∀ rule, t.equality = some rule → e.Overt r t rule) :
    f.ReadsIn r s m e ↔ e.Meets r f :=
  Filter.holds_congr (fun _ => Leaf.exists_bind_congr fun t ht c hc =>
    Leaf.reads_bound_of_overt hr ho hs hm hlater ht hc (hovert t ht c) he) f

end Directory
