import Directory.Proofs.StoreSync

/-!
# What determines the contents of a store

`Store.Checked` is the second invariant of the writes: each index was made for an attribute type of
the schema, the presence index is the system's own, and every stored entry has passed the checks of
the schema and of each index.

Together with `Store.Synced` it leaves no freedom. `performAll_synced` takes any two runs of
writes, refused ones among them: if they end with the same entries, then an index that both have is
the same index, key for key, whether it was filled at once or entry by entry.
-/

namespace Directory

/-- The index without its contents. -/
def AttributeIndex.bare (ix : AttributeIndex) : AttributeIndex := { ix with postings := .empty }

namespace Store

/-- The indexes were made, and the entries accepted, under the schema. -/
structure Checked (r : Registry) (s : Store) : Prop where
  accepted : ∀ ix ∈ s.indexes, ∀ b ∈ s.entries.toList, ix.Accepts r b.2
  values : ∀ b ∈ s.entries.toList, checkValues r b.2 = .ok ()
  declared : ∀ ix ∈ s.indexes, (∃ attr, r.resolve attr = .ok ix.attr) ∧
    AttributeIndex.create r ix.attr ix.includesSubtypes = .ok ix.bare
  system : s.presence.bare = .system presenceOid "presence"

variable {r : Registry} {s s' : Store}

theorem checked_new (partition : String) : (Store.new partition).Checked r where
  accepted _ hix := absurd hix List.not_mem_nil
  values _ hb := absurd hb List.not_mem_nil
  declared _ hix := absurd hix List.not_mem_nil
  system := rfl

theorem Checked.withEntry (h : s.Checked r) {e : Entry} {keys : AttributeIndex → List NormalValue}
    (hvalues : checkValues r e = .ok ())
    (hkeys : ∀ ix ∈ s.indexes, ix.keysFor r e = .ok (keys ix)) :
    (s.withEntry e keys).Checked r where
  accepted := by
    intro ix' hix' b hb
    obtain ⟨ix, hix, rfl⟩ := List.mem_map.mp hix'
    show ix.Accepts r b.2
    rcases SortedMap.mem_insert.mp hb with ⟨-, he⟩ | ⟨-, hb⟩
    · rw [he]
      exact AttributeIndex.exists_keysFor_iff.mp ⟨keys ix, hkeys ix hix⟩
    · exact h.accepted ix hix b hb
  values := by
    intro b hb
    rcases SortedMap.mem_insert.mp hb with ⟨-, he⟩ | ⟨-, hb⟩
    · rw [he]
      exact hvalues
    · exact h.values b hb
  declared := by
    intro ix' hix'
    obtain ⟨ix, hix, rfl⟩ := List.mem_map.mp hix'
    exact h.declared ix hix
  system := by
    rw [Store.withEntry, foldl_markPresent_eq]
    exact h.system

theorem Checked.withIndex (h : s.Checked r) {attr : String} {t : AttributeType}
    {includesSubtypes : Bool} {ix : AttributeIndex} {keys : EntryId × Entry → List NormalValue}
    (ht : r.resolve attr = .ok t) (hix : AttributeIndex.create r t includesSubtypes = .ok ix)
    (hkeys : ∀ b ∈ s.entries.toList, ix.keysFor r b.2 = .ok (keys b)) :
    (s.withIndex ix keys).Checked r where
  accepted := by
    intro ix' hix' b hb
    rcases List.mem_append.mp hix' with hix' | hix'
    · exact h.accepted ix' hix' b hb
    · obtain rfl := List.mem_singleton.mp hix'
      rw [foldl_insertAll_eq]
      exact AttributeIndex.exists_keysFor_iff.mp ⟨keys b, hkeys b hb⟩
  values := h.values
  declared := by
    intro ix' hix'
    rcases List.mem_append.mp hix' with hix' | hix'
    · exact h.declared ix' hix'
    · obtain rfl := List.mem_singleton.mp hix'
      obtain ⟨rfl, rfl, hempty⟩ := create_attr hix
      rw [foldl_insertAll_eq]
      refine ⟨⟨attr, ht⟩, ?_⟩
      show _ = Except.ok ix.bare
      rw [AttributeIndex.bare, ← hempty]
      exact hix
  system := by
    rw [Store.withIndex, foldl_markPresent_eq]
    exact h.system

theorem Checked.deleteEntry (h : s.Checked r) (id : EntryId) : (s.deleteEntry id).2.Checked r where
  accepted := by
    intro ix' hix' b hb
    obtain ⟨ix, hix, rfl⟩ := List.mem_map.mp hix'
    exact h.accepted ix hix b (SortedMap.mem_erase.mp hb).1
  values b hb := h.values b (SortedMap.mem_erase.mp hb).1
  declared := by
    intro ix' hix'
    obtain ⟨ix, hix, rfl⟩ := List.mem_map.mp hix'
    exact h.declared ix hix
  system := h.system

theorem Checked.apply (h : s.Checked r) {w : StoreWrite} (hw : w.apply r s = .ok s') :
    s'.Checked r := by
  cases w with
  | addIndex attr includesSubtypes =>
    obtain ⟨t, ix, ht, -, hix, keys, hkeys, rfl⟩ := addIndex_eq_ok_iff.mp hw
    exact h.withIndex ht hix hkeys
  | addEntry e =>
    obtain ⟨-, hvalues, keys, hkeys, rfl⟩ := addEntry_eq_ok_iff.mp hw
    exact h.withEntry hvalues hkeys
  | deleteEntry id =>
    cases hw
    exact h.deleteEntry id

theorem Reachable.checked (h : s.Reachable r) : s.Checked r := by
  induction h with
  | new partition => exact checked_new partition
  | write w _ hw ih => exact ih.apply hw

/-! ### Two runs that end with the same entries -/

/-- The indexes that were asked for. -/
def declarations (s : Store) : List (AttributeType × Bool) :=
  s.indexes.map fun ix => (ix.attr, ix.includesSubtypes)

/-- Indexes are equal when their contents are and what was asked for is. -/
theorem index_ext {ix ix' : AttributeIndex} (hbare : ix.bare = ix'.bare)
    (hm : ix.postings.Mirrored) (hm' : ix'.postings.Mirrored)
    (hforward : ∀ key id, (key, id) ∈ ix.postings.forward ↔ (key, id) ∈ ix'.postings.forward) :
    ix = ix' := by
  have hsides : ix.postings = ix'.postings := by
    have hf : ix.postings.forward = ix'.postings.forward :=
      SortedSet.ext_mem fun a => hforward a.1 a.2
    have hr : ix.postings.reverse = ix'.postings.reverse := SortedSet.ext_mem fun a => by
      rw [hm a.2 a.1, hm' a.2 a.1, hforward]
    cases hp : ix.postings
    cases hp' : ix'.postings
    simp_all
  obtain ⟨attr, rule, includesSubtypes, covered, postings⟩ := ix
  obtain ⟨attr', rule', includesSubtypes', covered', postings'⟩ := ix'
  cases hsides
  simpa [AttributeIndex.bare] using hbare

theorem index_eq_of_declared (hs : s.Reachable r) (hs' : s'.Reachable r)
    (hentries : s.entries = s'.entries) {ix ix' : AttributeIndex} (hix : ix ∈ s.indexes)
    (hix' : ix' ∈ s'.indexes) (hattr : ix.attr = ix'.attr)
    (hincludes : ix.includesSubtypes = ix'.includesSubtypes) : ix = ix' := by
  have hbare : ix.bare = ix'.bare := by
    have h := (hs.checked.declared ix hix).2
    have h' := (hs'.checked.declared ix' hix').2
    rw [hattr, hincludes, h'] at h
    exact (Except.ok.inj h).symm
  refine index_ext hbare (hs.synced.mirrored ix hix) (hs'.synced.mirrored ix' hix') ?_
  intro key id
  rw [hs.synced.forward ix hix, hs'.synced.forward ix' hix', entry?, entry?, hentries]
  have hdraws : ∀ e, ix.Draws r e key ↔ ix'.Draws r e key := fun e => by
    show ix.bare.Draws r e key ↔ ix'.bare.Draws r e key
    rw [hbare]
  simp only [hdraws]

theorem indexes_subset_of_declared (hs : s.Reachable r) (hs' : s'.Reachable r)
    (hentries : s.entries = s'.entries) (hdecl : s.declarations ⊆ s'.declarations) :
    s.indexes ⊆ s'.indexes := by
  intro ix hix
  obtain ⟨ix', hix', hpair⟩ := List.mem_map.mp (hdecl (List.mem_map_of_mem hix))
  obtain ⟨hattr, hincludes⟩ := Prod.mk.inj hpair
  rwa [index_eq_of_declared hs hs' hentries hix hix' hattr.symm hincludes.symm]

theorem presence_eq_of_declared (hs : s.Reachable r) (hs' : s'.Reachable r)
    (hindexes : ∀ ix, ix ∈ s.indexes ↔ ix ∈ s'.indexes) : s.presence = s'.presence := by
  have hbare : s.presence.bare = s'.presence.bare :=
    hs.checked.system.trans hs'.checked.system.symm
  refine index_ext hbare hs.synced.presence_mirrored hs'.synced.presence_mirrored ?_
  intro key id
  rw [hs.synced.presence, hs'.synced.presence]
  simp only [hindexes]

/-- **After any writes the indexes hold what the entries give them, and nothing else decides what
that is.** If two runs of writes end with the same entries, an attribute indexed alike in both has
the same index; if they end with the same indexes asked for, all contents are the same. -/
theorem performAll_synced {p p' : String} {ws ws' : List StoreWrite}
    (hs : (new p).performAll r ws = s) (hs' : (new p').performAll r ws' = s') :
    s.Synced r ∧
      (s.entries = s'.entries →
        (∀ ix ∈ s.indexes, ∀ ix' ∈ s'.indexes, ix.attr = ix'.attr →
          ix.includesSubtypes = ix'.includesSubtypes → ix = ix') ∧
        ((∀ d, d ∈ s.declarations ↔ d ∈ s'.declarations) →
          s.indexes.Perm s'.indexes ∧ s.presence = s'.presence)) := by
  have hreach : s.Reachable r := hs ▸ (Reachable.new p).performAll ws
  have hreach' : s'.Reachable r := hs' ▸ (Reachable.new p').performAll ws'
  refine ⟨hreach.synced, fun hentries => ⟨?_, fun hdecl => ?_⟩⟩
  · intro ix hix ix' hix' hattr hincludes
    exact index_eq_of_declared hreach hreach' hentries hix hix' hattr hincludes
  · have hindexes : ∀ ix, ix ∈ s.indexes ↔ ix ∈ s'.indexes := fun ix =>
      ⟨fun hix => indexes_subset_of_declared hreach hreach' hentries
          (fun d hd => (hdecl d).mp hd) hix,
        fun hix => indexes_subset_of_declared hreach' hreach hentries.symm
          (fun d hd => (hdecl d).mpr hd) hix⟩
    have hnodup : s.indexes.Nodup := List.Nodup.of_map _ hreach.synced.distinct
    have hnodup' : s'.indexes.Nodup := List.Nodup.of_map _ hreach'.synced.distinct
    exact ⟨(List.perm_ext_iff_of_nodup hnodup hnodup').mpr hindexes,
      presence_eq_of_declared hreach hreach' hindexes⟩

/-- An index made late and an index kept from the start, over an entry that comes and goes. -/
theorem performAll_synced_late_index :
    let s := (new "people").performAll .people [.addEntry (.named 1 "Alice"), .addIndex "CN" false]
    let s' := (new "people").performAll .people
      [.addIndex "commonName" false, .addEntry (.named 2 "Bob"), .addEntry (.named 2 "Eve"),
        .addEntry (.named 1 "Alice"), .deleteEntry 2]
    s.entries = s'.entries ∧ s.declarations = s'.declarations ∧ s.Synced .people ∧
      s.indexes.Perm s'.indexes ∧ s.presence = s'.presence := by
  intro s s'
  have hentries : s.entries = s'.entries := by decide +kernel
  have hdecl : s.declarations = s'.declarations := by decide +kernel
  have hs' : (new "people").performAll .people _ = s' := rfl
  obtain ⟨hsynced, hsame⟩ := performAll_synced (s := s) rfl hs'
  exact ⟨hentries, hdecl, hsynced, (hsame hentries).2 fun d => by rw [hdecl]⟩

end Store

end Directory
