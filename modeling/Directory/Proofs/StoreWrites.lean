import Directory.Proofs.Registry
import Directory.Proofs.Postings
import Directory.Store

/-!
# Writes to a store

The three writes as data, and the stores that they lead to.

* `StoreWrite.apply` carries a write out, and `StoreWrite.perform` leaves the store as it is when
  the write is refused;
* `Store.Reachable r` holds of the stores that writes under the schema `r` lead to;
* `addIndex_eq_ok_iff` and `addEntry_eq_ok_iff` say when a write succeeds and what the store is
  then. The keys that entries contribute are all there is to know of the loops inside.
-/

namespace Directory

/-- A write to a store. -/
inductive StoreWrite where
  | addIndex (attr : String) (includesSubtypes : Bool)
  | addEntry (e : Entry)
  | deleteEntry (id : EntryId)
  deriving DecidableEq, Repr

namespace StoreWrite

/-- The store after the write, unless it is refused. -/
def apply (r : Registry) (s : Store) : StoreWrite → Except StoreError Store
  | addIndex attr includesSubtypes => s.addIndex r attr includesSubtypes
  | addEntry e => s.addEntry r e
  | deleteEntry id => .ok (s.deleteEntry id).2

/-- The store after the write; a refused write leaves it as it is. -/
def perform (r : Registry) (s : Store) (w : StoreWrite) : Store :=
  match w.apply r s with
  | .ok s' => s'
  | .error _ => s

end StoreWrite

namespace Store

/-- The store after several writes, some of which may be refused. -/
def performAll (r : Registry) (s : Store) (ws : List StoreWrite) : Store :=
  ws.foldl (StoreWrite.perform r) s

/-- Successful writes under the schema lead from an empty store to this one. -/
inductive Reachable (r : Registry) : Store → Prop where
  | new (partition : String) : Reachable r (Store.new partition)
  | write {s s' : Store} (w : StoreWrite) : Reachable r s → w.apply r s = .ok s' → Reachable r s'

theorem Reachable.performAll {r : Registry} {s : Store} (h : s.Reachable r)
    (ws : List StoreWrite) : (s.performAll r ws).Reachable r := by
  induction ws generalizing s with
  | nil => exact h
  | cons w ws ih =>
    refine ih ?_
    rw [StoreWrite.perform]
    split
    · next s' hs' => exact h.write w hs'
    · exact h

end Store

/-- An entry with one common name. -/
def Entry.named (id : EntryId) (name : String) : Entry := .ofAttributes id "" [("cn", [name])]

/-! ### The keys of an entry -/

namespace AttributeIndex

/-- The entry has a value, under a description of a covered type, whose form is this key. -/
def Draws (ix : AttributeIndex) (r : Registry) (e : Entry) (key : NormalValue) : Prop :=
  ∃ description raws t raw, (description, raws) ∈ e.attributes.toList ∧
    r.resolve description = .ok t ∧ ix.covers t.oid = true ∧ raw ∈ raws ∧
    ix.normalize raw = .ok key

/-- The descriptions of the entry are known, and its values of covered types have keys. -/
def Accepts (ix : AttributeIndex) (r : Registry) (e : Entry) : Prop :=
  ∀ a ∈ e.attributes.toList, ∃ t, r.resolve a.1 = .ok t ∧
    (ix.covers t.oid = true → ∀ raw ∈ a.2, ∃ key, ix.normalize raw = .ok key)

variable {ix : AttributeIndex} {r : Registry} {e : Entry} {keys : List NormalValue}

/-- The keys under one description of an entry. -/
def partFor (ix : AttributeIndex) (r : Registry) (a : String × List String) :
    Except SchemaError (List NormalValue) := do
  let t ← r.resolve a.1
  if ix.covers t.oid then a.2.mapM ix.normalize else return []

theorem keysFor_eq (ix : AttributeIndex) (r : Registry) (e : Entry) :
    ix.keysFor r e = (e.attributes.toList.mapM (ix.partFor r)).map List.flatten := by
  have h : ix.keysFor r e =
      (e.attributes.toList.mapM (ix.partFor r) >>= fun parts => .ok parts.flatten) := rfl
  rw [h]
  cases e.attributes.toList.mapM (ix.partFor r) <;> rfl

theorem partFor_eq_ok {a : String × List String} (h : ix.partFor r a = .ok keys) :
    ∃ t, r.resolve a.1 = .ok t ∧
      (ix.covers t.oid = true → ∀ raw ∈ a.2, ∃ key, ix.normalize raw = .ok key) ∧
      ∀ key, key ∈ keys ↔ ix.covers t.oid = true ∧ ∃ raw ∈ a.2, ix.normalize raw = .ok key := by
  obtain ⟨t, ht, hkeys⟩ := bind_eq_ok_iff.mp h
  refine ⟨t, ht, ?_⟩
  by_cases hc : ix.covers t.oid = true
  · simp only [hc, if_true] at hkeys
    exact ⟨fun _ => exists_mapM_eq_ok_iff.mp ⟨keys, hkeys⟩,
      fun key => by simp [hc, mem_of_mapM hkeys]⟩
  · simp only [hc, Bool.false_eq_true, if_false] at hkeys
    cases hkeys
    simp [hc]

theorem mem_keysFor (h : ix.keysFor r e = .ok keys) {key : NormalValue} :
    key ∈ keys ↔ ix.Draws r e key := by
  rw [keysFor_eq] at h
  obtain ⟨parts, hparts, rfl⟩ := map_eq_ok_iff.mp h
  simp only [List.mem_flatten, mem_of_mapM hparts]
  constructor
  · rintro ⟨part, ⟨⟨description, raws⟩, hmem, hpart⟩, hkey⟩
    obtain ⟨t, ht, -, hkeys⟩ := partFor_eq_ok hpart
    obtain ⟨hc, raw, hraw, hnorm⟩ := (hkeys key).mp hkey
    exact ⟨description, raws, t, raw, hmem, ht, hc, hraw, hnorm⟩
  · rintro ⟨description, raws, t, raw, hmem, ht, hc, hraw, hnorm⟩
    obtain ⟨part, hpart⟩ := exists_mapM_eq_ok_iff.mp ⟨parts, hparts⟩ _ hmem
    obtain ⟨t', ht', -, hkeys⟩ := partFor_eq_ok hpart
    obtain rfl : t = t' := Except.ok.inj (ht.symm.trans ht')
    exact ⟨part, ⟨_, hmem, hpart⟩, (hkeys key).mpr ⟨hc, raw, hraw, hnorm⟩⟩

/-- An entry contributes keys to an index when the index accepts it. -/
theorem exists_keysFor_iff : (∃ keys, ix.keysFor r e = .ok keys) ↔ ix.Accepts r e := by
  have hparts : (∃ keys, ix.keysFor r e = .ok keys) ↔
      ∃ parts, e.attributes.toList.mapM (ix.partFor r) = .ok parts := by
    simp only [keysFor_eq, map_eq_ok_iff]
    exact ⟨fun ⟨_, parts, h, _⟩ => ⟨parts, h⟩, fun ⟨parts, h⟩ => ⟨_, parts, h, rfl⟩⟩
  rw [hparts, exists_mapM_eq_ok_iff]
  refine forall₂_congr fun a _ => ⟨fun ⟨part, h⟩ => ?_, fun ⟨t, ht, hall⟩ => ?_⟩
  · obtain ⟨t, ht, hall, -⟩ := partFor_eq_ok h
    exact ⟨t, ht, hall⟩
  · by_cases hc : ix.covers t.oid = true
    · obtain ⟨keys, hkeys⟩ := exists_mapM_eq_ok_iff.mpr (hall hc)
      exact ⟨keys, bind_eq_ok_iff.mpr ⟨t, ht, by simpa [hc] using hkeys⟩⟩
    · exact ⟨[], bind_eq_ok_iff.mpr ⟨t, ht, by simp [hc]; rfl⟩⟩

/-- An index with the OIDs of a type and of some others covers these types and no more. -/
theorem covers_iff {t u : AttributeType} {us : List AttributeType} (hr : r.Built)
    (ht : t ∈ r.types) (hus : us ⊆ r.types)
    (hcovered : ix.covered = (t :: us).map AttributeType.oid) (hu : u ∈ r.types) :
    ix.covers u.oid = true ↔ u = t ∨ u ∈ us := by
  rw [covers, List.contains_iff_mem, hcovered, List.mem_map]
  constructor
  · rintro ⟨v, hv, hoid⟩
    have hreg : v ∈ r.types := List.cons_subset.mpr ⟨ht, hus⟩ hv
    have huv := hr.eq_of_shared hu hreg u.oid_mem_identifiers (hoid ▸ v.oid_mem_identifiers)
    rw [huv]
    exact List.mem_cons.mp hv
  · intro hkind
    exact ⟨u, List.mem_cons.mpr hkind, rfl⟩

end AttributeIndex

/-! ### What a write does -/

namespace Store

/-- The store with one more entry, given its keys for each index. -/
def withEntry (s : Store) (e : Entry) (keys : AttributeIndex → List NormalValue) : Store :=
  { s with
    entries := s.entries.insert e.id e
    indexes := s.indexes.map fun ix => ix.insertAll (keys ix) e.id
    presence := s.indexes.foldl (fun p ix => markPresent p ix.attr.oid (keys ix) e.id) s.presence }

/-- The store with one more index, given the keys of each entry for it. -/
def withIndex (s : Store) (ix : AttributeIndex) (keys : EntryId × Entry → List NormalValue) :
    Store :=
  { s with
    indexes := s.indexes ++ [s.entries.toList.foldl (fun ix b => ix.insertAll (keys b) b.1) ix]
    presence :=
      s.entries.toList.foldl (fun p b => markPresent p ix.attr.oid (keys b) b.1) s.presence }

variable {s s' : Store} {r : Registry} {e : Entry}

/-- An entry passes the checks if its descriptions are known and each of its values has a form under
the equality rule of its type, if there is one. -/
theorem checkValues_eq_ok_iff : checkValues r e = .ok () ↔
    ∀ b ∈ e.attributes.toList, ∃ t, r.resolve b.1 = .ok t ∧
      ∀ rule, t.equality = some rule → ∀ raw ∈ b.2, ∃ key, rule.normalize raw = .ok key := by
  have hraws : ∀ (rule : MatchingRule) (raws : List String),
      (raws.forM fun raw => do let _ ← rule.normalize raw) = Except.ok PUnit.unit ↔
        ∀ raw ∈ raws, ∃ key, rule.normalize raw = .ok key := fun rule raws => by
    rw [forM_eq_ok_iff]
    refine forall₂_congr fun raw _ => ?_
    rw [bind_eq_ok_iff]
    exact exists_congr fun key => and_iff_left rfl
  refine forM_eq_ok_iff.trans (forall₂_congr fun b _ => ?_)
  rw [bind_eq_ok_iff]
  refine exists_congr fun t => and_congr_right fun _ => ?_
  cases t.equality with
  | none => simp [pure, Except.pure]
  | some rule => simpa using hraws rule b.2

/-- An index is made for a type with an equality rule. It has no keys yet. -/
theorem create_eq_ok_iff {t : AttributeType} {includesSubtypes : Bool} {ix : AttributeIndex} :
    AttributeIndex.create r t includesSubtypes = .ok ix ↔ ∃ rule, t.equality = some rule ∧
      ix = ⟨t, rule, includesSubtypes,
        (t :: if includesSubtypes then r.subtypes t else []).map AttributeType.oid, .empty⟩ := by
  unfold AttributeIndex.create
  cases t.equality with
  | none => simp
  | some rule => simp [eq_comm]

theorem create_attr {t : AttributeType} {includesSubtypes : Bool} {ix : AttributeIndex}
    (h : AttributeIndex.create r t includesSubtypes = .ok ix) :
    ix.attr = t ∧ ix.includesSubtypes = includesSubtypes ∧ ix.postings = .empty := by
  obtain ⟨rule, -, rfl⟩ := create_eq_ok_iff.mp h
  exact ⟨rfl, rfl, rfl⟩

theorem addEntry_eq_ok_iff :
    s.addEntry r e = .ok s' ↔
      s.entry? e.id = none ∧ checkValues r e = .ok () ∧
        ∃ keys : AttributeIndex → List NormalValue,
          (∀ ix ∈ s.indexes, ix.keysFor r e = .ok (keys ix)) ∧ s' = s.withEntry e keys := by
  have hcontains : s.entries.contains e.id = false ↔ s.entry? e.id = none := by
    rw [SortedMap.contains, entry?, Option.isSome_eq_false_iff, Option.isNone_iff_eq_none]
  rw [← hcontains]
  unfold addEntry
  cases hnew : s.entries.contains e.id with
  | true => simp [bind, Except.bind, throw, throwThe, MonadExceptOf.throw]
  | false =>
    simp only [Bool.false_eq_true, if_false, true_and, bind_eq_ok_iff, mapError_eq_ok_iff,
      mapM_pair_eq_ok_iff]
    constructor
    · rintro ⟨⟨⟩, hvalues, _, ⟨keys, hkeys, rfl⟩, h⟩
      refine ⟨hvalues, keys, hkeys, ?_⟩
      rw [← Except.ok.inj h, withEntry, List.map_map, List.foldl_map]
      rfl
    · rintro ⟨hvalues, keys, hkeys, rfl⟩
      refine ⟨⟨⟩, hvalues, _, ⟨keys, hkeys, rfl⟩, ?_⟩
      rw [withEntry, List.map_map, List.foldl_map]
      rfl

theorem addIndex_eq_ok_iff {attr : String} {includesSubtypes : Bool} :
    s.addIndex r attr includesSubtypes = .ok s' ↔
      ∃ t ix, r.resolve attr = .ok t ∧ s.indexFor? t.oid = none ∧
        AttributeIndex.create r t includesSubtypes = .ok ix ∧
        ∃ keys : EntryId × Entry → List NormalValue,
          (∀ b ∈ s.entries.toList, ix.keysFor r b.2 = .ok (keys b)) ∧ s' = s.withIndex ix keys := by
  unfold addIndex
  rw [bind_eq_ok_iff]
  simp only [mapError_eq_ok_iff]
  refine exists_congr fun t => ?_
  cases hfree : s.indexFor? t.oid with
  | some ix => simp [bind, Except.bind, throw, throwThe, MonadExceptOf.throw]
  | none =>
    simp only [Option.isSome_none, Bool.false_eq_true, if_false, bind_eq_ok_iff,
      mapM_pair_eq_ok_iff, true_and]
    constructor
    · rintro ⟨ht, ix, hix, _, ⟨keys, hkeys, rfl⟩, h⟩
      refine ⟨ix, ht, hix, keys, hkeys, ?_⟩
      rw [← Except.ok.inj h, withIndex, List.foldl_map, List.foldl_map, (create_attr hix).1]
    · rintro ⟨ix, ht, hix, keys, hkeys, rfl⟩
      refine ⟨ht, ix, hix, _, ⟨keys, hkeys, rfl⟩, ?_⟩
      rw [withIndex, List.foldl_map, List.foldl_map, (create_attr hix).1]
      rfl

end Store

end Directory
