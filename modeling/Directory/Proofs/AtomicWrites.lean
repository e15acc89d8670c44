import Directory.Proofs.StoreContents
import Directory.Proofs.Subtypes

/-!
# Writes are done as a whole or not at all

A write changes a store in several places: the entries, the presence index, and each index on an
attribute. `StoreEdit` is a computation that does so place by place. When it fails, what it has
changed until then stays changed. `StoreEdit.addIndex`, `StoreEdit.addEntry` and
`StoreEdit.deleteEntry` are the writes as such computations, and `StoreWrite.runOn_steps` says that
they do what the writes do: everything that can fail comes before the first change.

`Store.Permits` says which writes succeed, without mention of keys: those whose descriptions are
known and whose values have a form under every rule that is going to be applied to them.
`steps_atomic` puts both together.
-/

namespace Directory

/-- A computation that changes a store in place, and that can fail on the way. -/
abbrev StoreEdit : Type → Type := ExceptT StoreError (StateM Store)

namespace StoreEdit

variable {α β : Type} {r : Registry} {s s' : Store} {id : EntryId} {e : Entry}

/-- The result or the failure, and the store as it is then. -/
def runOn (x : StoreEdit α) (s : Store) : Except StoreError α × Store := (ExceptT.run x).run s

/-- Something that can fail but changes nothing. -/
def check (x : Except StoreError α) : StoreEdit α := ExceptT.mk (pure x)

/-- Change the store. -/
def change (f : Store → Store) : StoreEdit PUnit := modify f

/-- Change the presence index. -/
def editPresence (f : AttributeIndex → AttributeIndex) : StoreEdit PUnit :=
  change fun s => { s with presence := f s.presence }

/-- Change the index at this place in the list. -/
def editIndex (n : Nat) (f : AttributeIndex → AttributeIndex) : StoreEdit PUnit :=
  change fun s => { s with indexes := s.indexes.modify n f }

/-! ### The writes, step by step -/

/-- Create an index, fill it, mark its entries in the presence index, and make it known. -/
def addIndex (r : Registry) (attr : String) (includesSubtypes : Bool) : StoreEdit PUnit := do
  let t ← check ((r.resolve attr).mapError .schema)
  if ((← get).indexFor? t.oid).isSome then throw (.duplicateIndex t.name)
  let ix ← check (AttributeIndex.create r t includesSubtypes)
  let keyed ← check <| (← get).entries.toList.mapM fun (id, e) => do
    let keys ← (ix.keysFor r e).mapError .schema
    return (id, keys)
  keyed.forM fun (id, keys) => editPresence fun p => Store.markPresent p t.oid keys id
  change fun s =>
    { s with indexes := s.indexes ++ [keyed.foldl (fun ix (id, keys) => ix.insertAll keys id) ix] }

/-- Store an entry, then mark it and insert its keys, one index after the other. -/
def addEntry (r : Registry) (e : Entry) : StoreEdit PUnit := do
  if (← get).entries.contains e.id then throw (.duplicateEntry e.id)
  check ((Store.checkValues r e).mapError .schema)
  let keyed ← check <| (← get).indexes.mapM fun ix => do
    let keys ← (ix.keysFor r e).mapError .schema
    return (ix, keys)
  change fun s => { s with entries := s.entries.insert e.id e }
  keyed.zipIdx.forM fun ((ix, keys), n) => do
    unless keys.isEmpty do
      editPresence fun p => p.insertAll [.text ix.attr.oid] e.id
      editIndex n fun ix => ix.insertAll keys e.id

/-- Take the keys of an entry from every index, then from the presence index, and then remove the
entry itself. -/
def deleteEntry (id : EntryId) : StoreEdit (Option Entry) := do
  (← get).indexes.zipIdx.forM fun (_, n) => editIndex n fun ix => ix.removeId id
  editPresence fun p => p.removeId id
  let removed := Store.entry? (← get) id
  change fun s => { s with entries := s.entries.erase id }
  return removed

/-! ### Running steps -/

/-- What is left when a write is done as a whole or not at all. -/
def settled (s : Store) (a : α) : Except StoreError Store → Except StoreError α × Store
  | .ok s' => (.ok a, s')
  | .error err => (.error err, s)

theorem settled_eq_ok_iff {a b : α} {y : Except StoreError Store} :
    settled s a y = (.ok b, s') ↔ a = b ∧ y = .ok s' := by
  cases y <;> simp [settled]

theorem settled_eq_error_iff {a : α} {err : StoreError} {y : Except StoreError Store} :
    settled s a y = (.error err, s') ↔ y = .error err ∧ s = s' := by
  cases y <;> simp [settled]

theorem runOn_get_bind (f : Store → StoreEdit α) (s : Store) :
    (get >>= f).runOn s = (f s).runOn s := rfl

theorem runOn_change_bind (f : Store → Store) (x : StoreEdit α) (s : Store) :
    (change f >>= fun _ => x).runOn s = x.runOn (f s) := rfl

theorem runOn_bind_ok {x : StoreEdit β} {f : β → StoreEdit α} {b : β}
    (h : x.runOn s = (.ok b, s')) : (x >>= f).runOn s = (f b).runOn s' :=
  run_bind_of_ok h

/-- A check that fails leaves the store as it is. -/
theorem runOn_check_bind {x : Except StoreError β} {f : β → StoreEdit α}
    {g : β → Except StoreError Store} {a : α}
    (h : ∀ b, x = .ok b → (f b).runOn s = settled s a (g b)) :
    (check x >>= f).runOn s = settled s a (x >>= g) := by
  cases x with
  | error err => rfl
  | ok b => exact h b rfl

/-- A loop of changes. -/
theorem runOn_forM {f : Store → β → Store} {body : β → StoreEdit PUnit}
    (h : ∀ b s, (body b).runOn s = (.ok ⟨⟩, f s b)) (bs : List β) (s : Store) :
    (bs.forM body).runOn s = (.ok ⟨⟩, bs.foldl f s) :=
  run_forM_of_ok h bs s

/-- Going through the indexes place by place changes each of them. -/
theorem foldl_modify (f : β → AttributeIndex → AttributeIndex)
    (p : AttributeIndex → β → AttributeIndex) {g : β → AttributeIndex}
    {done : List AttributeIndex} {bs : List β} (hs : s.indexes = done ++ bs.map g) :
    (bs.zipIdx done.length).foldl (fun s b =>
        { s with presence := p s.presence b.1, indexes := s.indexes.modify b.2 (f b.1) }) s =
      { s with
        presence := bs.foldl p s.presence
        indexes := done ++ bs.map fun b => f b (g b) } := by
  induction bs generalizing s done with
  | nil =>
    rw [List.map_nil] at hs
    rw [List.map_nil, ← hs]
    rfl
  | cons b bs ih =>
    have hstep : s.indexes.modify done.length (f b) = (done ++ [f b (g b)]) ++ bs.map g := by
      rw [hs, List.append_assoc]
      exact List.modifyTailIdx_add (List.modifyHead (f b)) 0 done ((b :: bs).map g)
    have hlength : (done ++ [f b (g b)]).length = done.length + 1 := by simp
    rw [List.zipIdx_cons, List.foldl_cons, ← hlength, ih hstep]
    simp

/-- Marking an entry and inserting its keys can be skipped if it has none. -/
theorem runOn_insertKeys (b : (AttributeIndex × List NormalValue) × Nat) (id : EntryId)
    (s : Store) :
    (unless b.1.2.isEmpty do
      editPresence fun p => p.insertAll [.text b.1.1.attr.oid] id
      editIndex b.2 fun ix => ix.insertAll b.1.2 id : StoreEdit PUnit).runOn s =
      (.ok ⟨⟩, { s with
        presence := Store.markPresent s.presence b.1.1.attr.oid b.1.2 id
        indexes := s.indexes.modify b.2 fun ix => ix.insertAll b.1.2 id }) := by
  obtain ⟨⟨ix, keys⟩, n⟩ := b
  cases keys with
  | nil =>
    have hsame : s.indexes.modify n (fun ix => ix.insertAll [] id) = s.indexes :=
      List.modify_id n s.indexes
    rw [hsame]
    rfl
  | cons key keys => rfl

theorem runOn_addEntry : (addEntry r e).runOn s = settled s ⟨⟩ (s.addEntry r e) := by
  unfold addEntry Store.addEntry
  rw [runOn_get_bind]
  cases s.entries.contains e.id with
  | true => rfl
  | false =>
    refine runOn_check_bind fun _ _ => ?_
    rw [runOn_get_bind]
    refine runOn_check_bind fun keyed hkeyed => ?_
    -- the keys were computed for the indexes of the store, in their order
    have hindexes : s.indexes = [] ++ keyed.map Prod.fst := by
      obtain ⟨keys, -, rfl⟩ := mapM_pair_eq_ok_iff.mp hkeyed
      simp [Function.comp_def]
    have hloop := foldl_modify (s := { s with entries := s.entries.insert e.id e })
      (fun b ix => ix.insertAll b.2 e.id)
      (fun p b => Store.markPresent p b.1.attr.oid b.2 e.id) hindexes
    rw [runOn_change_bind]
    refine (runOn_forM (fun b s => runOn_insertKeys b e.id s) keyed.zipIdx _).trans ?_
    exact congrArg (Prod.mk (Except.ok PUnit.unit)) hloop

theorem runOn_addIndex {attr : String} {includesSubtypes : Bool} :
    (addIndex r attr includesSubtypes).runOn s =
      settled s ⟨⟩ (s.addIndex r attr includesSubtypes) := by
  unfold addIndex Store.addIndex
  refine runOn_check_bind fun t _ => ?_
  rw [runOn_get_bind]
  cases (s.indexFor? t.oid).isSome with
  | true => rfl
  | false =>
    refine runOn_check_bind fun ix _ => ?_
    rw [runOn_get_bind]
    refine runOn_check_bind fun keyed _ => ?_
    have hloop : (keyed.forM fun b =>
        editPresence fun p => Store.markPresent p t.oid b.2 b.1).runOn s =
          (.ok ⟨⟩, { s with
            presence := keyed.foldl (fun p b => Store.markPresent p t.oid b.2 b.1) s.presence }) := by
      refine (runOn_forM (fun _ _ => rfl) keyed s).trans ?_
      exact congrArg (Prod.mk _) (List.foldl_hom (fun p => { s with presence := p }) fun _ _ => rfl)
    exact runOn_bind_ok hloop

theorem runOn_deleteEntry :
    (deleteEntry id).runOn s = (.ok (s.deleteEntry id).1, (s.deleteEntry id).2) := by
  have hloop : (s.indexes.zipIdx.forM fun b => editIndex b.2 fun ix => ix.removeId id).runOn s =
      (.ok ⟨⟩, { s with indexes := s.indexes.map fun ix => ix.removeId id }) := by
    have hindexes : s.indexes = [] ++ s.indexes.map fun ix => ix := by simp
    have hmap := foldl_modify (fun _ ix => ix.removeId id) (fun p _ => p) hindexes
    rw [List.foldl_fixed] at hmap
    refine (runOn_forM (fun _ _ => rfl) s.indexes.zipIdx s).trans ?_
    exact congrArg (Prod.mk (Except.ok PUnit.unit)) hmap
  unfold deleteEntry
  rw [runOn_get_bind, runOn_bind_ok hloop]
  rfl

/-- A write whose result is replaced. -/
theorem runOn_bind_pure {x : StoreEdit β} {b : β} {a : α} {y : Except StoreError Store}
    (h : x.runOn s = settled s b y) : (x >>= fun _ => pure a).runOn s = settled s a y := by
  have hrun : (x >>= fun _ => pure a).runOn s =
      (ExceptT.bindCont (fun _ => (pure a : StoreEdit α)) (x.runOn s).1).run (x.runOn s).2 := rfl
  rw [hrun, h]
  cases y <;> rfl

end StoreEdit

namespace StoreWrite

variable {r : Registry} {s s' : Store} {w : StoreWrite}

/-- The write, step by step, with the entry that it removes. -/
def steps (r : Registry) : StoreWrite → StoreEdit (Option Entry)
  | addIndex attr includesSubtypes => do
    StoreEdit.addIndex r attr includesSubtypes
    return none
  | addEntry e => do
    StoreEdit.addEntry r e
    return none
  | deleteEntry id => StoreEdit.deleteEntry id

/-- The entry that the write removes. -/
def removed (s : Store) : StoreWrite → Option Entry
  | deleteEntry id => s.entry? id
  | _ => none

/-- **A write is done as a whole or not at all.** -/
theorem runOn_steps (w : StoreWrite) :
    (w.steps r).runOn s = StoreEdit.settled s (w.removed s) (w.apply r s) := by
  cases w with
  | addIndex attr includesSubtypes => exact StoreEdit.runOn_bind_pure StoreEdit.runOn_addIndex
  | addEntry e => exact StoreEdit.runOn_bind_pure StoreEdit.runOn_addEntry
  | deleteEntry id => exact StoreEdit.runOn_deleteEntry

end StoreWrite

/-! ### The writes that succeed -/

/-- An index on the first type takes the values of the second. -/
def Registry.InScope (r : Registry) (t : AttributeType) (includesSubtypes : Bool)
    (u : AttributeType) : Prop :=
  u = t ∨ includesSubtypes = true ∧ r.Below u t

/-- The descriptions of the entry are known, and each value has a form under the equality rule of
its own type, if there is one. -/
def Entry.Valid (r : Registry) (e : Entry) : Prop :=
  ∀ b ∈ e.attributes.toList, ∃ u, r.resolve b.1 = .ok u ∧
    ∀ rule, u.equality = some rule → ∀ raw ∈ b.2, ∃ key, rule.normalize raw = .ok key

/-- The values of the entry that an index on the type would take have a form under the rule. -/
def Entry.Fits (r : Registry) (t : AttributeType) (includesSubtypes : Bool) (rule : MatchingRule)
    (e : Entry) : Prop :=
  ∀ b ∈ e.attributes.toList, ∀ u, r.resolve b.1 = .ok u → r.InScope t includesSubtypes u →
    ∀ raw ∈ b.2, ∃ key, rule.normalize raw = .ok key

namespace Store

variable {r : Registry} {s s' : Store} {e : Entry} {id : EntryId} {t : AttributeType}
  {includesSubtypes : Bool}

/-- The write is well-formed for the store. -/
def Permits (s : Store) (r : Registry) : StoreWrite → Prop
  | .addEntry e => s.entry? e.id = none ∧ e.Valid r ∧
      ∀ ix ∈ s.indexes, e.Fits r ix.attr ix.includesSubtypes ix.rule
  | .addIndex attr includesSubtypes => ∃ t rule, r.resolve attr = .ok t ∧
      s.indexFor? t.oid = none ∧ t.equality = some rule ∧
      ∀ id e, s.entry? id = some e → e.Fits r t includesSubtypes rule
  | .deleteEntry _ => True

theorem bare_of_create {ix : AttributeIndex}
    (h : AttributeIndex.create r t includesSubtypes = .ok ix) :
    ix.bare = ix ∧ t.equality = some ix.rule := by
  obtain ⟨rule, hrule, rfl⟩ := create_eq_ok_iff.mp h
  exact ⟨rfl, hrule⟩

/-- What an index covers is what is in its scope. -/
theorem covers_iff_inScope (hr : r.Built) (ht : t ∈ r.types) {ix : AttributeIndex}
    (hix : AttributeIndex.create r t includesSubtypes = .ok ix.bare) {u : AttributeType}
    (hu : u ∈ r.types) : ix.covers u.oid = true ↔ r.InScope t includesSubtypes u := by
  obtain ⟨rule, -, hbare⟩ := create_eq_ok_iff.mp hix
  have hcovered : ix.covered =
      (t :: if includesSubtypes then r.subtypes t else []).map AttributeType.oid :=
    congrArg AttributeIndex.covered hbare
  have hsub : (if includesSubtypes then r.subtypes t else []) ⊆ r.types := by
    cases includesSubtypes with
    | true => exact Registry.below_subset t.oid r.types
    | false => exact List.nil_subset _
  rw [AttributeIndex.covers_iff hr ht hsub hcovered hu, Registry.InScope]
  refine or_congr Iff.rfl ?_
  cases includesSubtypes with
  | true => simp [Registry.mem_subtypes_iff hr]
  | false => simp

theorem accepts_iff_fits (hr : r.Built) (ht : t ∈ r.types) {ix : AttributeIndex}
    (hix : AttributeIndex.create r t includesSubtypes = .ok ix.bare) (he : e.Valid r) :
    ix.Accepts r e ↔ e.Fits r t includesSubtypes ix.rule := by
  refine forall₂_congr fun b hb => ?_
  obtain ⟨u, hu, -⟩ := he b hb
  have hcovers := covers_iff_inScope hr ht hix (Registry.resolve_mem hu)
  simp only [hu, Except.ok.injEq, exists_eq_left', forall_eq', hcovers]
  rfl

theorem exists_addEntry_iff (hr : r.Built) (hs : s.Checked r) :
    (∃ s', s.addEntry r e = .ok s') ↔ s.Permits r (.addEntry e) := by
  have hfits : ∀ ix ∈ s.indexes, e.Valid r →
      (ix.Accepts r e ↔ e.Fits r ix.attr ix.includesSubtypes ix.rule) := by
    intro ix hix he
    obtain ⟨⟨attr, hattr⟩, hcreate⟩ := hs.declared ix hix
    exact accepts_iff_fits hr (Registry.resolve_mem hattr) hcreate he
  constructor
  · rintro ⟨s', h⟩
    obtain ⟨hnew, hvalues, keys, hkeys, -⟩ := addEntry_eq_ok_iff.mp h
    have he : e.Valid r := checkValues_eq_ok_iff.mp hvalues
    refine ⟨hnew, he, fun ix hix => (hfits ix hix he).mp ?_⟩
    exact AttributeIndex.exists_keysFor_iff.mp ⟨_, hkeys ix hix⟩
  · rintro ⟨hnew, he, hall⟩
    obtain ⟨keys, hkeys⟩ := exists_forall_eq_ok_iff.mpr fun ix hix =>
      AttributeIndex.exists_keysFor_iff.mpr ((hfits ix hix he).mpr (hall ix hix))
    exact ⟨_, addEntry_eq_ok_iff.mpr ⟨hnew, checkValues_eq_ok_iff.mpr he, keys, hkeys, rfl⟩⟩

theorem exists_addIndex_iff (hr : r.Built) (hs : s.Checked r) {attr : String} :
    (∃ s', s.addIndex r attr includesSubtypes = .ok s') ↔
      s.Permits r (.addIndex attr includesSubtypes) := by
  -- the stored entries have passed the checks, so that only the values in scope matter
  have hvalid : ∀ b ∈ s.entries.toList, b.2.Valid r := fun b hb =>
    checkValues_eq_ok_iff.mp (hs.values b hb)
  constructor
  · rintro ⟨s', h⟩
    obtain ⟨t, ix, ht, hfree, hix, keys, hkeys, -⟩ := addIndex_eq_ok_iff.mp h
    obtain ⟨hbare, hrule⟩ := bare_of_create hix
    refine ⟨t, ix.rule, ht, hfree, hrule, fun id e he => ?_⟩
    have hmem := entry?_eq_some_iff.mp he
    refine (accepts_iff_fits hr (Registry.resolve_mem ht) (hbare.symm ▸ hix) (hvalid _ hmem)).mp ?_
    exact AttributeIndex.exists_keysFor_iff.mp ⟨_, hkeys _ hmem⟩
  · rintro ⟨t, rule, ht, hfree, hrule, hall⟩
    obtain ⟨ix, hix⟩ : ∃ ix, AttributeIndex.create r t includesSubtypes = .ok ix :=
      ⟨_, create_eq_ok_iff.mpr ⟨rule, hrule, rfl⟩⟩
    obtain ⟨hbare, hrule'⟩ := bare_of_create hix
    obtain rfl : rule = ix.rule := Option.some.inj (hrule.symm.trans hrule')
    have haccepts : ∀ b ∈ s.entries.toList, ix.Accepts r b.2 := fun b hb =>
      (accepts_iff_fits hr (Registry.resolve_mem ht) (hbare.symm ▸ hix) (hvalid b hb)).mpr
        (hall b.1 b.2 (entry?_eq_some_iff.mpr hb))
    obtain ⟨keys, hkeys⟩ := exists_forall_eq_ok_iff.mpr fun b hb =>
      AttributeIndex.exists_keysFor_iff.mpr (haccepts b hb)
    exact ⟨_, addIndex_eq_ok_iff.mpr ⟨t, ix, ht, hfree, hix, keys, hkeys, rfl⟩⟩

/-- A write succeeds exactly if the store permits it. -/
theorem exists_apply_iff (hr : r.Built) (hs : s.Checked r) (w : StoreWrite) :
    (∃ s', w.apply r s = .ok s') ↔ s.Permits r w := by
  cases w with
  | addIndex attr includesSubtypes => exact exists_addIndex_iff hr hs
  | addEntry e => exact exists_addEntry_iff hr hs
  | deleteEntry id => exact iff_of_true ⟨_, rfl⟩ trivial

/-- Removing an entry that is not there changes nothing. -/
theorem Synced.deleteEntry_of_absent (hs : s.Synced r) (h : s.entry? id = none) :
    s.deleteEntry id = (none, s) := by
  have hnothing : ∀ ix ∈ s.indexes, ∀ key, (key, id) ∉ ix.postings.forward := by
    intro ix hix key hmem
    obtain ⟨e, he, -⟩ := (hs.forward ix hix key id).mp hmem
    rw [h] at he
    cases he
  have hindexes : ∀ ix ∈ s.indexes, ix.removeId id = ix := by
    intro ix hix
    rw [AttributeIndex.removeId, (hs.mirrored ix hix).removeId_of_absent (hnothing ix hix)]
  have hpresence : s.presence.removeId id = s.presence := by
    rw [AttributeIndex.removeId, hs.presence_mirrored.removeId_of_absent fun key hmem => ?_]
    obtain ⟨ix, hix, -, k, hk⟩ := (hs.presence key id).mp hmem
    exact hnothing ix hix k hk
  have hentries : s.entries.erase id = s.entries := SortedMap.erase_of_find?_eq_none h
  rw [Store.deleteEntry, List.map_congr_left hindexes, List.map_id', hpresence, hentries, h]

end Store

/-- **Writes are done as a whole or not at all, and exactly the well-formed ones are done.** Carried
out step by step on a store that writes lead to, a write succeeds exactly if the store permits it,
and leaves the store that the write makes. When it fails, the store is as it was before the first
step. Removing an entry that is not there succeeds and leaves the store as it was, too. -/
theorem steps_atomic {r : Registry} {s : Store} (hr : r.Built) (hs : s.Reachable r)
    (w : StoreWrite) :
    ((∃ removed s', (w.steps r).runOn s = (.ok removed, s')) ↔ s.Permits r w) ∧
      (∀ removed s', (w.steps r).runOn s = (.ok removed, s') → w.apply r s = .ok s') ∧
      (∀ err s', (w.steps r).runOn s = (.error err, s') → s' = s) ∧
      ∀ id, s.entry? id = none →
        ((StoreWrite.deleteEntry id).steps r).runOn s = (.ok none, s) := by
  simp only [StoreWrite.runOn_steps, StoreEdit.settled_eq_ok_iff, StoreEdit.settled_eq_error_iff]
  refine ⟨?_, ?_, ?_, ?_⟩
  · rw [← Store.exists_apply_iff hr hs.checked w]
    exact ⟨fun ⟨_, s', _, h⟩ => ⟨s', h⟩, fun ⟨s', h⟩ => ⟨_, s', rfl, h⟩⟩
  · rintro _ s' ⟨-, h⟩
    exact h
  · rintro err s' ⟨-, rfl⟩
    rfl
  · intro id habsent
    have hsame := hs.synced.deleteEntry_of_absent habsent
    exact ⟨habsent, congrArg Except.ok (congrArg Prod.snd hsame)⟩

/-- The second badge of the visitor is fine as a text, but not as a number, which is what the index
on badges wants. The first badge has its key by then, but it does not get into the index. -/
theorem steps_atomic_ancestor_rule :
    let e := Entry.ofAttributes 2 "" [("visitorBadge", ["7", "x"])]
    let s := (Store.new "people").performAll .badges
      [.addIndex "badge" true, .addEntry (.ofAttributes 1 "" [("visitorBadge", ["12"])])]
    let w := StoreWrite.addEntry e
    e.Valid .badges ∧ ¬ s.Permits .badges w ∧
      ∃ err, (w.steps .badges).runOn s = (.error err, s) := by
  intro e s w
  have hs : s.Reachable .badges := (Store.Reachable.new "people").performAll _
  have hvalid : Store.checkValues .badges e = .ok () := by decide +kernel
  obtain ⟨hpermits, -, hsame, -⟩ := steps_atomic Registry.built_badges hs w
  have hrefused : ((w.steps .badges).runOn s).1.isOk = false := by decide +kernel
  rcases hrun : (w.steps .badges).runOn s with ⟨err | removed, s'⟩
  · obtain rfl := hsame err s' hrun
    refine ⟨Store.checkValues_eq_ok_iff.mp hvalid, fun h => ?_, err, rfl⟩
    obtain ⟨removed, s', hok⟩ := hpermits.mpr h
    rw [hok] at hrefused
    cases hrefused
  · rw [hrun] at hrefused
    cases hrefused

end Directory
