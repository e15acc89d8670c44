import Directory.Proofs.StoreWrites

/-!
# The indexes of a store follow its entries

`Store.Synced` is the invariant that every write keeps: each index holds exactly the keys that the
stored entries draw under it, the reverse side of each index mirrors the forward side, the presence
index marks the entries with a key, entries are stored under their own ids, and no two indexes are
on one attribute. Each kind of write restores it, whatever loops it consists of, and so it holds of
every store that writes lead to (`Reachable.synced`).
-/

namespace Directory

/-! ### Loops that insert keys -/

section Loops

variable {β : Type} {bs : List β} {keys : β → List NormalValue} {id : β → EntryId}

theorem mem_forward_foldl {p : Postings} {k : NormalValue} {i : EntryId} :
    (k, i) ∈ (bs.foldl (fun p b => p.insertAll (keys b) (id b)) p).forward ↔
      (∃ b ∈ bs, i = id b ∧ k ∈ keys b) ∨ (k, i) ∈ p.forward := by
  induction bs generalizing p with
  | nil => simp
  | cons b bs ih =>
    rw [List.foldl_cons, ih, Postings.mem_forward_insertAll]
    simp only [List.mem_cons, exists_eq_or_imp]
    rw [or_assoc, or_left_comm]

theorem mirrored_foldl {p : Postings} (h : p.Mirrored) :
    (bs.foldl (fun p b => p.insertAll (keys b) (id b)) p).Mirrored := by
  induction bs generalizing p with
  | nil => exact h
  | cons b bs ih => exact ih (h.insertAll _ _)

theorem foldl_insertAll_eq (ix : AttributeIndex) :
    bs.foldl (fun ix b => ix.insertAll (keys b) (id b)) ix =
      { ix with postings := bs.foldl (fun p b => p.insertAll (keys b) (id b)) ix.postings } := by
  induction bs generalizing ix with
  | nil => rfl
  | cons b bs ih => rw [List.foldl_cons, ih]; rfl

/-- The keys that the presence index gets for an attribute: one if there is any key at all. -/
def marks (oid : String) (keys : List NormalValue) : List NormalValue :=
  if keys.isEmpty then [] else [.text oid]

theorem mem_marks {oid : String} {keys : List NormalValue} {k : NormalValue} :
    k ∈ marks oid keys ↔ k = .text oid ∧ ∃ key, key ∈ keys := by
  cases keys with
  | nil => simp [marks]
  | cons key keys =>
    have : ∃ k', k' ∈ key :: keys := ⟨key, by simp⟩
    simp only [marks, List.isEmpty_cons, Bool.false_eq_true, if_false, List.mem_singleton, this,
      and_true]

theorem markPresent_eq (p : AttributeIndex) (oid : String) (keys : List NormalValue)
    (id : EntryId) : Store.markPresent p oid keys id = p.insertAll (marks oid keys) id := by
  unfold Store.markPresent marks
  split <;> rfl

theorem foldl_markPresent_eq {oid : β → String} (p : AttributeIndex) :
    bs.foldl (fun p b => Store.markPresent p (oid b) (keys b) (id b)) p =
      { p with
        postings :=
          bs.foldl (fun p b => p.insertAll (marks (oid b) (keys b)) (id b)) p.postings } := by
  simp only [markPresent_eq]
  rw [← foldl_insertAll_eq]

end Loops

namespace Store

/-- The indexes hold what the entries give them. -/
structure Synced (r : Registry) (s : Store) : Prop where
  forward : ∀ ix ∈ s.indexes, ∀ key id,
    (key, id) ∈ ix.postings.forward ↔ ∃ e, s.entry? id = some e ∧ ix.Draws r e key
  mirrored : ∀ ix ∈ s.indexes, ix.postings.Mirrored
  presence : ∀ key id, (key, id) ∈ s.presence.postings.forward ↔
    ∃ ix ∈ s.indexes, key = .text ix.attr.oid ∧ ∃ k, (k, id) ∈ ix.postings.forward
  presence_mirrored : s.presence.postings.Mirrored
  ids : ∀ b ∈ s.entries.toList, b.1 = b.2.id
  distinct : (s.indexes.map fun ix => ix.attr.oid).Nodup

variable {r : Registry} {s s' : Store}

theorem entry?_eq_some_iff {id : EntryId} {e : Entry} :
    s.entry? id = some e ↔ (id, e) ∈ s.entries.toList := SortedMap.find?_eq_some_iff

theorem synced_new (partition : String) : (Store.new partition).Synced r where
  forward ix hix := absurd hix List.not_mem_nil
  mirrored ix hix := absurd hix List.not_mem_nil
  presence key id := by simp [Store.new, AttributeIndex.system, Postings.empty]
  presence_mirrored := Postings.mirrored_empty
  ids b hb := absurd hb List.not_mem_nil
  distinct := List.nodup_nil

/-! ### A new entry -/

theorem entry?_withEntry {e : Entry} {keys : AttributeIndex → List NormalValue} (id : EntryId) :
    Store.entry? (s.withEntry e keys) id = if id = e.id then some e else s.entry? id :=
  SortedMap.find?_insert s.entries e.id e id

theorem Synced.withEntry (h : s.Synced r) {e : Entry} {keys : AttributeIndex → List NormalValue}
    (hnew : s.entry? e.id = none) (hkeys : ∀ ix ∈ s.indexes, ix.keysFor r e = .ok (keys ix)) :
    (s.withEntry e keys).Synced r where
  forward := by
    intro ix' hix' key id
    obtain ⟨ix, hix, rfl⟩ := List.mem_map.mp hix'
    show (key, id) ∈ (ix.postings.insertAll (keys ix) e.id).forward ↔
      ∃ e', Store.entry? (s.withEntry e keys) id = some e' ∧ ix.Draws r e' key
    rw [Postings.mem_forward_insertAll, AttributeIndex.mem_keysFor (hkeys ix hix),
      h.forward ix hix, entry?_withEntry]
    by_cases hid : id = e.id
    · -- the id had no keys before
      subst hid
      simp [hnew]
    · simp [hid]
  mirrored := by
    intro ix' hix'
    obtain ⟨ix, hix, rfl⟩ := List.mem_map.mp hix'
    exact (h.mirrored ix hix).insertAll _ _
  presence := by
    intro key id
    have hmark : (key, id) ∈ (s.withEntry e keys).presence.postings.forward ↔
        (∃ ix ∈ s.indexes, id = e.id ∧ key ∈ marks ix.attr.oid (keys ix)) ∨
          (key, id) ∈ s.presence.postings.forward := by
      rw [Store.withEntry, foldl_markPresent_eq]
      exact mem_forward_foldl
    have hindex : ∀ ix : AttributeIndex,
        (∃ k, (k, id) ∈ (ix.insertAll (keys ix) e.id).postings.forward) ↔
          (id = e.id ∧ ∃ k, k ∈ keys ix) ∨ ∃ k, (k, id) ∈ ix.postings.forward := fun ix => by
      rw [← exists_and_left, ← exists_or]
      exact exists_congr fun k => Postings.mem_forward_insertAll
    rw [hmark, h.presence]
    simp only [mem_marks, Store.withEntry, List.mem_map, exists_exists_and_eq_and]
    constructor
    · rintro (⟨ix, hix, hid, rfl, hkey⟩ | ⟨ix, hix, rfl, hkey⟩)
      · exact ⟨ix, hix, rfl, (hindex ix).mpr (.inl ⟨hid, hkey⟩)⟩
      · exact ⟨ix, hix, rfl, (hindex ix).mpr (.inr hkey)⟩
    · rintro ⟨ix, hix, rfl, hkey⟩
      rcases (hindex ix).mp hkey with ⟨hid, hkey⟩ | hkey
      · exact .inl ⟨ix, hix, hid, rfl, hkey⟩
      · exact .inr ⟨ix, hix, rfl, hkey⟩
  presence_mirrored := by
    rw [Store.withEntry, foldl_markPresent_eq]
    exact mirrored_foldl h.presence_mirrored
  ids := by
    rintro ⟨id, e'⟩ hb
    rcases SortedMap.mem_insert.mp hb with ⟨rfl, rfl⟩ | ⟨-, hb⟩
    · rfl
    · exact h.ids _ hb
  distinct := by
    rw [Store.withEntry, List.map_map]
    exact h.distinct

/-! ### A new index -/

theorem Synced.withIndex (h : s.Synced r) {t : AttributeType} {includesSubtypes : Bool}
    {ix : AttributeIndex} {keys : EntryId × Entry → List NormalValue}
    (hfree : s.indexFor? t.oid = none) (hix : AttributeIndex.create r t includesSubtypes = .ok ix)
    (hkeys : ∀ b ∈ s.entries.toList, ix.keysFor r b.2 = .ok (keys b)) :
    (s.withIndex ix keys).Synced r := by
  obtain ⟨rfl, -, hempty⟩ := create_attr hix
  -- the index as it is after the loop over the entries
  have hfilled : ∀ key id,
      (key, id) ∈ (s.entries.toList.foldl
        (fun ix b => ix.insertAll (keys b) b.1) ix).postings.forward ↔
        ∃ b ∈ s.entries.toList, id = b.1 ∧ key ∈ keys b := fun key id => by
    rw [foldl_insertAll_eq, mem_forward_foldl, hempty]
    simp [Postings.empty]
  have hmark : ∀ key id, (key, id) ∈ (s.withIndex ix keys).presence.postings.forward ↔
      (∃ b ∈ s.entries.toList, id = b.1 ∧ key ∈ marks ix.attr.oid (keys b)) ∨
        (key, id) ∈ s.presence.postings.forward := fun key id => by
    rw [Store.withIndex, foldl_markPresent_eq]
    exact mem_forward_foldl
  have hattr :
      (s.entries.toList.foldl (fun ix b => ix.insertAll (keys b) b.1) ix).attr = ix.attr := by
    rw [foldl_insertAll_eq]
  refine ⟨?_, ?_, ?_, ?_, h.ids, ?_⟩
  · intro ix' hix' key id
    rcases List.mem_append.mp hix' with hix' | hix'
    · exact h.forward ix' hix' key id
    · obtain rfl := List.mem_singleton.mp hix'
      rw [hfilled, foldl_insertAll_eq]
      show _ ↔ ∃ e, s.entry? id = some e ∧ ix.Draws r e key
      simp only [entry?_eq_some_iff]
      constructor
      · rintro ⟨b, hb, rfl, hkey⟩
        exact ⟨b.2, hb, (AttributeIndex.mem_keysFor (hkeys b hb)).mp hkey⟩
      · rintro ⟨e, hb, hdraws⟩
        exact ⟨(id, e), hb, rfl, (AttributeIndex.mem_keysFor (hkeys _ hb)).mpr hdraws⟩
  · intro ix' hix'
    rcases List.mem_append.mp hix' with hix' | hix'
    · exact h.mirrored ix' hix'
    · obtain rfl := List.mem_singleton.mp hix'
      rw [foldl_insertAll_eq]
      exact mirrored_foldl (hempty ▸ Postings.mirrored_empty)
  · intro key id
    rw [hmark, h.presence, Store.withIndex]
    simp only [List.mem_append, List.mem_singleton, or_and_right, exists_or, exists_eq_left, hattr,
      hfilled, mem_marks]
    rw [or_comm]
    refine or_congr Iff.rfl ⟨?_, ?_⟩
    · rintro ⟨b, hb, hid, rfl, key, hkey⟩
      exact ⟨rfl, key, b, hb, hid, hkey⟩
    · rintro ⟨rfl, key, b, hb, hid, hkey⟩
      exact ⟨b, hb, hid, rfl, key, hkey⟩
  · rw [Store.withIndex, foldl_markPresent_eq]
    exact mirrored_foldl h.presence_mirrored
  · rw [Store.withIndex, List.map_append, List.nodup_append']
    refine ⟨h.distinct, List.nodup_singleton _, ?_⟩
    rw [List.map_singleton, List.disjoint_singleton, hattr]
    intro hmem
    obtain ⟨ix', hix', hoid⟩ := List.mem_map.mp hmem
    have hknown : ¬ ix'.attr.isKnownAs ix.attr.oid = true :=
      List.find?_eq_none.mp hfree ix' hix'
    exact hknown (by simp [AttributeType.isKnownAs, hoid])

/-! ### An entry removed -/

theorem entry?_deleteEntry (id i : EntryId) :
    Store.entry? (s.deleteEntry id).2 i = if i = id then none else s.entry? i :=
  SortedMap.find?_erase s.entries id i

theorem Synced.deleteEntry (h : s.Synced r) (id : EntryId) : (s.deleteEntry id).2.Synced r where
  forward := by
    intro ix' hix' key i
    obtain ⟨ix, hix, rfl⟩ := List.mem_map.mp hix'
    show (key, i) ∈ (ix.postings.removeId id).forward ↔
      ∃ e, Store.entry? (s.deleteEntry id).2 i = some e ∧ ix.Draws r e key
    rw [(h.mirrored ix hix).mem_forward_removeId, h.forward ix hix, entry?_deleteEntry]
    by_cases hi : i = id <;> simp [hi]
  mirrored := by
    intro ix' hix'
    obtain ⟨ix, hix, rfl⟩ := List.mem_map.mp hix'
    exact (h.mirrored ix hix).removeId id
  presence := by
    intro key i
    show (key, i) ∈ (s.presence.postings.removeId id).forward ↔ _
    have hindex : ∀ ix ∈ s.indexes, ∀ k, (k, i) ∈ (ix.removeId id).postings.forward ↔
        (k, i) ∈ ix.postings.forward ∧ i ≠ id :=
      fun ix hix k => (h.mirrored ix hix).mem_forward_removeId
    rw [h.presence_mirrored.mem_forward_removeId, h.presence]
    simp only [Store.deleteEntry, List.mem_map, exists_exists_and_eq_and]
    constructor
    · rintro ⟨⟨ix, hix, rfl, k, hk⟩, hne⟩
      exact ⟨ix, hix, rfl, k, (hindex ix hix k).mpr ⟨hk, hne⟩⟩
    · rintro ⟨ix, hix, rfl, k, hk⟩
      obtain ⟨hk, hne⟩ := (hindex ix hix k).mp hk
      exact ⟨⟨ix, hix, rfl, k, hk⟩, hne⟩
  presence_mirrored := h.presence_mirrored.removeId id
  ids := by
    intro b hb
    exact h.ids b (SortedMap.mem_erase.mp hb).1
  distinct := by
    rw [Store.deleteEntry, List.map_map]
    exact h.distinct

/-! ### Every write, and every run of writes -/

theorem Synced.apply (h : s.Synced r) {w : StoreWrite} (hw : w.apply r s = .ok s') :
    s'.Synced r := by
  cases w with
  | addIndex attr includesSubtypes =>
    obtain ⟨t, ix, -, hfree, hix, keys, hkeys, rfl⟩ := addIndex_eq_ok_iff.mp hw
    exact h.withIndex hfree hix hkeys
  | addEntry e =>
    obtain ⟨hnew, -, keys, hkeys, rfl⟩ := addEntry_eq_ok_iff.mp hw
    exact h.withEntry hnew hkeys
  | deleteEntry id =>
    cases hw
    exact h.deleteEntry id

/-- **The indexes of every store follow its entries.** -/
theorem Reachable.synced (h : s.Reachable r) : s.Synced r := by
  induction h with
  | new partition => exact synced_new partition
  | write w _ hw ih => exact ih.apply hw

end Store

end Directory
