import Directory.Index.Postings
import Directory.Proofs.Sorted

/-!
# The contents of an index

The two sides of an index mirror each other. As long as they do, the reverse side finds every key
of an entry, so that taking those keys away leaves nothing of the entry behind; and each query on
the forward side is a condition on the key.
-/

namespace Directory

namespace Postings

variable {p : Postings} {key k : NormalValue} {id i : EntryId}

/-! ### The keys of an entry -/

theorem isLE_of_then_lt {o o' : Ordering} (h : o.then o' = .lt) : o.isLE = true := by
  cases o with
  | lt => rfl
  | eq => rfl
  | gt => cases h

/-- On the reverse side the ids ascend, each as often as its entry has keys. -/
theorem reverse_ids (p : Postings) :
    p.reverse.toList.Pairwise fun a b => (compare a.1 b.1).isLE = true :=
  p.reverse.ascending.imp isLE_of_then_lt

/-- The pairs of an id stand together on the reverse side: smaller ids come before them, and they
are the first of those that are left. -/
theorem keysOf_eq_filter (p : Postings) (id : EntryId) :
    p.keysOf id = (p.reverse.toList.filter fun pair => pair.1 == id).map Prod.snd := by
  have hdrop : (p.reverse.toList.dropWhile fun pair => compare pair.1 id == .lt) =
      p.reverse.toList.filter fun pair => !(compare pair.1 id == .lt) := by
    refine dropWhile_eq_filter (p.reverse_ids.imp fun {a b} hab hb => ?_)
    rw [beq_iff_eq] at hb ⊢
    exact Std.TransCmp.lt_of_isLE_of_lt hab hb
  have htake : (p.reverse.toList.filter fun pair => !(compare pair.1 id == .lt)).Pairwise
      fun a b => (b.1 == id) = true → (a.1 == id) = true := by
    have hids := p.reverse_ids.filter fun pair => !(compare pair.1 id == .lt)
    rw [List.pairwise_iff_forall_sublist] at hids ⊢
    intro a b hab hb
    have ha : a ∈ p.reverse.toList.filter fun pair => !(compare pair.1 id == .lt) :=
      hab.subset (by simp)
    have hle := hids hab
    rw [beq_iff_eq] at hb ⊢
    rw [hb] at hle
    have hge : compare a.1 id ≠ .lt := by simpa using (List.mem_filter.mp ha).2
    apply Std.LawfulEqOrd.eq_of_compare
    cases h : compare a.1 id
    · exact absurd h hge
    · rfl
    · rw [h] at hle; cases hle
  rw [keysOf, hdrop, takeWhile_eq_filter htake, List.filter_filter]
  refine congrArg (List.map Prod.snd) (List.filter_congr fun pair _ => ?_)
  cases hid : pair.1 == id with
  | false => rfl
  | true =>
    rw [beq_iff_eq] at hid
    simp [hid]

theorem mem_keysOf : key ∈ p.keysOf id ↔ (id, key) ∈ p.reverse := by
  rw [keysOf_eq_filter]
  simp only [List.mem_map, List.mem_filter, beq_iff_eq, Prod.exists, SortedSet.mem_def]
  constructor
  · rintro ⟨i, k, ⟨hmem, rfl⟩, rfl⟩
    exact hmem
  · intro hmem
    exact ⟨id, key, ⟨hmem, rfl⟩, rfl⟩

theorem keysOf_ascending (p : Postings) (id : EntryId) :
    (p.keysOf id).Pairwise fun a b => compare a b = .lt := by
  rw [keysOf_eq_filter, List.pairwise_map]
  have hpairs := p.reverse.ascending.filter fun pair => pair.1 == id
  rw [List.pairwise_iff_forall_sublist] at hpairs ⊢
  intro a b hab
  have hid : ∀ c ∈ p.reverse.toList.filter fun pair => pair.1 == id, c.1 = id := fun c hc =>
    beq_iff_eq.mp (List.mem_filter.mp hc).2
  have hself : compare id id = .eq := Std.ReflCmp.compare_self
  have hlt : (compare a.1 b.1).then (compare a.2 b.2) = .lt := hpairs hab
  rw [hid a (hab.subset (by simp)), hid b (hab.subset (by simp)), hself] at hlt
  exact hlt

/-! ### Both sides -/

/-- The reverse side holds the pairs of the forward side the other way round. -/
def Mirrored (p : Postings) : Prop := ∀ key id, (id, key) ∈ p.reverse ↔ (key, id) ∈ p.forward

theorem mirrored_empty : Mirrored empty := fun _ _ => by
  simp [empty]

theorem Mirrored.insert (h : p.Mirrored) (key : NormalValue) (id : EntryId) :
    (p.insert key id).Mirrored := fun k i => by
  simp [Postings.insert, h k i, and_comm]

theorem Mirrored.remove (h : p.Mirrored) (key : NormalValue) (id : EntryId) :
    (p.remove key id).Mirrored := fun k i => by
  simp [Postings.remove, h k i, and_comm]

theorem Mirrored.insertAll (h : p.Mirrored) (keys : List NormalValue) (id : EntryId) :
    (p.insertAll keys id).Mirrored := by
  induction keys generalizing p with
  | nil => exact h
  | cons key keys ih => exact ih (h.insert key id)

theorem Mirrored.removeAll (h : p.Mirrored) (keys : List NormalValue) (id : EntryId) :
    (keys.foldl (fun p key => p.remove key id) p).Mirrored := by
  induction keys generalizing p with
  | nil => exact h
  | cons key keys ih => exact ih (h.remove key id)

theorem Mirrored.removeId (h : p.Mirrored) (id : EntryId) : (p.removeId id).Mirrored :=
  h.removeAll _ _

/-! ### The forward side after a change -/

theorem mem_forward_insertAll {keys : List NormalValue} :
    (k, i) ∈ (p.insertAll keys id).forward ↔ (i = id ∧ k ∈ keys) ∨ (k, i) ∈ p.forward := by
  induction keys generalizing p with
  | nil => simp [insertAll]
  | cons key keys ih =>
    have hstep : p.insertAll (key :: keys) id = (p.insert key id).insertAll keys id := rfl
    rw [hstep, ih]
    simp only [Postings.insert, SortedSet.mem_insert, Prod.mk.injEq, List.mem_cons]
    tauto

theorem mem_forward_removeAll {keys : List NormalValue} :
    (k, i) ∈ (keys.foldl (fun p key => p.remove key id) p).forward ↔
      (k, i) ∈ p.forward ∧ ¬ (i = id ∧ k ∈ keys) := by
  induction keys generalizing p with
  | nil => simp
  | cons key keys ih =>
    rw [List.foldl_cons, ih]
    simp only [Postings.remove, SortedSet.mem_erase, ne_eq, Prod.mk.injEq, List.mem_cons]
    tauto

/-- Nothing of the entry stays behind, since the reverse side lists all its keys. -/
theorem Mirrored.mem_forward_removeId (h : p.Mirrored) :
    (k, i) ∈ (p.removeId id).forward ↔ (k, i) ∈ p.forward ∧ i ≠ id := by
  rw [Postings.removeId, mem_forward_removeAll, mem_keysOf, h k id]
  constructor
  · rintro ⟨hmem, hnot⟩
    exact ⟨hmem, fun hi => hnot ⟨hi, hi ▸ hmem⟩⟩
  · rintro ⟨hmem, hne⟩
    exact ⟨hmem, fun hi => hne hi.1⟩

theorem Mirrored.removeId_of_absent (h : p.Mirrored) (habsent : ∀ key, (key, id) ∉ p.forward) :
    p.removeId id = p := by
  have hkeys : p.keysOf id = [] := List.eq_nil_iff_forall_not_mem.mpr fun key hkey =>
    habsent key ((h key id).mp (mem_keysOf.mp hkey))
  rw [Postings.removeId, hkeys, List.foldl_nil]

/-! ### Queries -/

theorem keyAtLeast_iff {lower : NormalValue} {pair : NormalValue × EntryId} :
    keyAtLeast lower pair = true ↔ (compare pair.1 lower).isGE = true := by
  rw [keyAtLeast]
  cases compare pair.1 lower <;> simp

theorem keyAtMost_iff {upper : NormalValue} {pair : NormalValue × EntryId} :
    keyAtMost upper pair = true ↔ (compare pair.1 upper).isLE = true := by
  rw [keyAtMost]
  cases compare pair.1 upper <;> simp

/-- On the forward side the keys ascend, each as often as there are entries with it. -/
theorem forward_keys (p : Postings) :
    p.forward.toList.Pairwise fun a b => (compare a.1 b.1).isLE = true :=
  p.forward.ascending.imp isLE_of_then_lt

theorem startingAt_eq_filter (p : Postings) (lower : NormalValue) :
    p.startingAt lower = p.forward.toList.filter (keyAtLeast lower) := by
  have h : p.forward.toList.Pairwise
      fun a b => (!keyAtLeast lower b) = true → (!keyAtLeast lower a) = true := by
    refine p.forward_keys.imp fun {a b} hab hb => ?_
    simp only [keyAtLeast, bne, Bool.not_not, beq_iff_eq] at hb ⊢
    exact Std.TransCmp.lt_of_isLE_of_lt hab hb
  rw [startingAt, dropWhile_eq_filter h]
  simp only [Bool.not_not]

theorem takeWhile_keyAtMost {l : List (NormalValue × EntryId)} (upper : NormalValue)
    (h : l.Pairwise fun a b => (compare a.1 b.1).isLE = true) :
    l.takeWhile (keyAtMost upper) = l.filter (keyAtMost upper) := by
  refine takeWhile_eq_filter (h.imp fun {a b} hab hb => ?_)
  rw [keyAtMost_iff] at hb ⊢
  exact Std.TransCmp.isLE_trans hab hb

theorem mem_startingAt {lower : NormalValue} :
    (k, i) ∈ p.startingAt lower ↔ (k, i) ∈ p.forward ∧ (compare k lower).isGE = true := by
  rw [startingAt_eq_filter, List.mem_filter, keyAtLeast_iff]
  rfl

theorem mem_endingAt {upper : NormalValue} :
    (k, i) ∈ p.endingAt upper ↔ (k, i) ∈ p.forward ∧ (compare k upper).isLE = true := by
  rw [endingAt, takeWhile_keyAtMost upper p.forward_keys, List.mem_filter, keyAtMost_iff]
  rfl

theorem mem_within {lower upper : NormalValue} :
    (k, i) ∈ p.within lower upper ↔
      (k, i) ∈ p.forward ∧ (compare k lower).isGE = true ∧ (compare k upper).isLE = true := by
  have h := p.forward_keys.filter (keyAtLeast lower)
  rw [within, startingAt_eq_filter, takeWhile_keyAtMost upper h, List.mem_filter, List.mem_filter,
    keyAtLeast_iff, keyAtMost_iff, and_assoc]
  rfl

theorem mem_within_self : (k, i) ∈ p.within key key ↔ (k, i) ∈ p.forward ∧ k = key := by
  rw [mem_within, and_congr_right_iff]
  intro _
  rw [← Std.LawfulEqOrd.compare_eq_iff_eq (a := k)]
  cases compare k key <;> simp

end Postings

end Directory
