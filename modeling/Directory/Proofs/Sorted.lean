import Directory.Sorted.Map
import Directory.Sorted.Set
import Mathlib.Data.List.Sort

/-!
# Sorted sets and maps through their members

A sorted set is determined by its members, and a sorted map by the values it binds. No member is
listed twice, so that a part of a set is not larger than the set. In a sorted list the members that
come before a bound are the first ones, so that `takeWhile` and `dropWhile` select what `filter`
selects.
-/

namespace Directory

universe u v

/-! ### Stretches of a list -/

section Stretches

variable {α : Type u} {p : α → Bool} {l : List α}

theorem takeWhile_eq_filter (h : l.Pairwise fun a b => p b = true → p a = true) :
    l.takeWhile p = l.filter p := by
  induction l with
  | nil => rfl
  | cons a l ih =>
    obtain ⟨ha, hl⟩ := List.pairwise_cons.mp h
    by_cases hp : p a = true
    · rw [List.takeWhile_cons_of_pos hp, List.filter_cons_of_pos hp, ih hl]
    · have hnone : ∀ b ∈ l, ¬ p b = true := fun b hb hpb => hp (ha b hb hpb)
      rw [List.takeWhile_cons_of_neg hp, List.filter_cons_of_neg hp,
        List.filter_eq_nil_iff.mpr hnone]

theorem dropWhile_eq_filter (h : l.Pairwise fun a b => p b = true → p a = true) :
    l.dropWhile p = l.filter fun a => !p a := by
  induction l with
  | nil => rfl
  | cons a l ih =>
    obtain ⟨ha, hl⟩ := List.pairwise_cons.mp h
    by_cases hp : p a = true
    · rw [List.dropWhile_cons_of_pos hp, List.filter_cons_of_neg (by simp [hp]), ih hl]
    · have hall : ∀ b ∈ l, (!p b) = true := fun b hb => by
        have : ¬ p b = true := fun hpb => hp (ha b hb hpb)
        simpa using this
      rw [List.dropWhile_cons_of_neg hp, List.filter_cons_of_pos (by simpa using hp),
        List.filter_eq_self.mpr hall]

end Stretches

section Order

variable {α : Type u} [Ord α] [Std.TransOrd α]

theorem not_compare_self_lt (a : α) : compare a a ≠ .lt := by
  have hself : compare a a = .eq := Std.ReflCmp.compare_self
  rw [hself]
  simp

/-- Lists in strictly ascending order of a key are equal when they have the same members. -/
theorem eq_of_ascending {γ : Type v} {key : γ → α} {as bs : List γ}
    (ha : as.Pairwise fun a b => compare (key a) (key b) = .lt)
    (hb : bs.Pairwise fun a b => compare (key a) (key b) = .lt) (h : ∀ c, c ∈ as ↔ c ∈ bs) :
    as = bs := by
  have : Std.Irrefl fun a b : γ => compare (key a) (key b) = .lt :=
    ⟨fun a => not_compare_self_lt (key a)⟩
  have : Std.Antisymm fun a b : γ => compare (key a) (key b) = .lt :=
    ⟨fun a _ hab hba => absurd (Std.TransCmp.lt_trans hab hba) (not_compare_self_lt (key a))⟩
  exact ha.eq_of_mem_iff hb h

omit [Std.TransOrd α] in
theorem compare_beq_eq [Std.LawfulEqOrd α] [DecidableEq α] (a b : α) :
    (compare a b == .eq) = decide (a = b) := by
  rw [Bool.eq_iff_iff, beq_iff_eq, decide_eq_true_iff, Std.LawfulEqOrd.compare_eq_iff_eq]

end Order

namespace SortedSet

variable {α : Type u} [Ord α] [Std.TransOrd α]

/-- Sets with the same members are equal. -/
theorem ext_mem {s t : SortedSet α} (h : ∀ a, a ∈ s ↔ a ∈ t) : s = t := by
  have hlist : s.toList = t.toList := eq_of_ascending s.ascending t.ascending h
  cases s
  cases t
  cases hlist
  rfl

theorem nodup (s : SortedSet α) : s.toList.Nodup :=
  s.ascending.imp fun {a b} hab (heq : a = b) => not_compare_self_lt a (heq ▸ hab)

/-- A set is not larger than a list that has its members. -/
theorem size_le_length {s : SortedSet α} {as : List α} (h : ∀ a ∈ s, a ∈ as) :
    s.size ≤ as.length :=
  (List.subperm_of_subset s.nodup h).length_le

/-- A part of a set is not larger than the set. -/
theorem size_le_size {s t : SortedSet α} (h : ∀ a ∈ s, a ∈ t) : s.size ≤ t.size :=
  size_le_length h

variable [Std.LawfulEqOrd α]

theorem size_union_le (s t : SortedSet α) : (s.union t).size ≤ s.size + t.size := by
  have h : (s.union t).size ≤ (s.toList ++ t.toList).length :=
    size_le_length fun a ha => List.mem_append.mpr (mem_union.mp ha)
  rwa [List.length_append] at h

omit [Std.TransOrd α] in
@[simp] theorem mem_erase {s : SortedSet α} {a c : α} : c ∈ s.erase a ↔ c ∈ s ∧ c ≠ a := by
  rw [erase, mem_filter, bne_iff_ne, ne_eq, Std.LawfulEqOrd.compare_eq_iff_eq, eq_comm]

omit [Std.TransOrd α] [Std.LawfulEqOrd α] in
theorem isEmpty_iff {s : SortedSet α} : s.isEmpty = true ↔ ∀ a, a ∉ s := by
  simp [isEmpty, List.isEmpty_iff, List.eq_nil_iff_forall_not_mem, mem_def]

end SortedSet

namespace SortedMap

variable {κ : Type u} {β : Type v} [Ord κ] [Std.TransOrd κ] [Std.LawfulEqOrd κ] [DecidableEq κ]

/-! ### Looking up a key -/

theorem find?_eq_some_iff {m : SortedMap κ β} {c : κ} {w : β} :
    m.find? c = some w ↔ (c, w) ∈ m.toList := by
  obtain ⟨bs, hbs⟩ := m
  simp only [find?]
  induction bs with
  | nil => simp
  | cons b bs ih =>
    obtain ⟨hb, hbs⟩ := List.pairwise_cons.mp hbs
    rw [List.find?_cons, List.mem_cons, compare_beq_eq]
    by_cases hc : c = b.1
    · subst hc
      have hnot : (b.1, w) ∉ bs := fun h => not_compare_self_lt b.1 (hb (b.1, w) h)
      simp [hnot, Prod.ext_iff, eq_comm]
    · have hne : (c, w) ≠ b := fun h => hc (by rw [← h])
      simpa [hc, hne] using ih hbs

omit [Std.TransOrd κ] [Std.LawfulEqOrd κ] [DecidableEq κ] in
theorem ext_toList {m n : SortedMap κ β} (h : m.toList = n.toList) : m = n := by
  cases m
  cases n
  cases h
  rfl

/-- Maps that bind the same values are equal. -/
theorem ext_find? {m n : SortedMap κ β} (h : ∀ c, m.find? c = n.find? c) : m = n := by
  have hmem : ∀ b, b ∈ m.toList ↔ b ∈ n.toList := fun b => by
    rw [← find?_eq_some_iff (w := b.2), ← find?_eq_some_iff (w := b.2), h]
  exact ext_toList (eq_of_ascending m.ascending n.ascending hmem)

/-! ### Looking up after a change -/

theorem find?_alterList (k : κ) (f : Option β → β) {bs : List (κ × β)}
    (h : bs.Pairwise fun a b => compare a.1 b.1 = .lt) (c : κ) :
    ((alterList k f bs).find? fun b => compare c b.1 == .eq).map Prod.snd =
      if c = k then some (f ((bs.find? fun b => compare k b.1 == .eq).map Prod.snd))
      else (bs.find? fun b => compare c b.1 == .eq).map Prod.snd := by
  induction bs with
  | nil => by_cases hc : c = k <;> simp [alterList, compare_beq_eq, hc]
  | cons b bs ih =>
    obtain ⟨hb, hbs⟩ := List.pairwise_cons.mp h
    rw [alterList]
    split
    · next hkb =>
      -- the key is new, and smaller than every key of the list
      have hnone : (b :: bs).find? (fun b => compare k b.1 == .eq) = none := by
        rw [List.find?_eq_none]
        intro d hd hkd
        rw [beq_iff_eq] at hkd
        obtain rfl := Std.LawfulEqOrd.eq_of_compare hkd
        rcases List.mem_cons.mp hd with rfl | hd
        · exact not_compare_self_lt _ hkb
        · exact not_compare_self_lt _ (Std.TransCmp.lt_trans hkb (hb d hd))
      by_cases hc : c = k
      · rw [hc, hnone]; simp
      · simp [compare_beq_eq, hc]
    · next hkb =>
      obtain rfl := Std.LawfulEqOrd.eq_of_compare hkb
      by_cases hc : c = b.1 <;> simp [compare_beq_eq, hc]
    · next hkb =>
      have hne : k ≠ b.1 := fun hk => by
        have hself : compare b.1 b.1 = .eq := Std.ReflCmp.compare_self
        rw [hk, hself] at hkb
        cases hkb
      by_cases hc : c = b.1
      · subst hc
        simp [compare_beq_eq, Ne.symm hne]
      · rw [List.find?_cons, compare_beq_eq, decide_eq_false hc, ih hbs]
        simp [compare_beq_eq, hne, hc]

theorem find?_alter (m : SortedMap κ β) (k : κ) (f : Option β → β) (c : κ) :
    (m.alter k f).find? c = if c = k then some (f (m.find? k)) else m.find? c :=
  find?_alterList k f m.ascending c

theorem find?_insert (m : SortedMap κ β) (k : κ) (w : β) (c : κ) :
    (m.insert k w).find? c = if c = k then some w else m.find? c := find?_alter m k _ c

theorem find?_erase (m : SortedMap κ β) (k c : κ) :
    (m.erase k).find? c = if c = k then none else m.find? c := by
  ext w
  rw [find?_eq_some_iff]
  by_cases hc : c = k
  · subst hc
    simp [erase, bne, compare_beq_eq]
  · simp [erase, bne, compare_beq_eq, hc, find?_eq_some_iff, Ne.symm hc]

/-- The bindings of a map after one key is bound anew. -/
theorem erase_of_find?_eq_none {m : SortedMap κ β} {k : κ} (h : m.find? k = none) :
    m.erase k = m := by
  refine ext_find? fun c => ?_
  rw [find?_erase]
  split
  · next hc => rw [hc, h]
  · rfl

theorem mem_insert {m : SortedMap κ β} {k c : κ} {v w : β} :
    (c, w) ∈ (m.insert k v).toList ↔ (c = k ∧ w = v) ∨ (c ≠ k ∧ (c, w) ∈ m.toList) := by
  rw [← find?_eq_some_iff, find?_insert, ← find?_eq_some_iff]
  by_cases hc : c = k <;> simp [hc, eq_comm]

omit [Std.TransOrd κ] [DecidableEq κ] in
theorem mem_erase {m : SortedMap κ β} {k : κ} {b : κ × β} :
    b ∈ (m.erase k).toList ↔ b ∈ m.toList ∧ b.1 ≠ k := by
  rw [erase, List.mem_filter, bne_iff_ne, ne_eq, Std.LawfulEqOrd.compare_eq_iff_eq, eq_comm]

/-! ### Building a map up -/

section Building

omit [DecidableEq κ]

omit [Std.LawfulEqOrd κ] in
theorem alterList_of_forall_lt {k : κ} {f : Option β → β} {bs : List (κ × β)}
    (h : ∀ b ∈ bs, compare b.1 k = .lt) : alterList k f bs = bs ++ [(k, f none)] := by
  induction bs with
  | nil => rfl
  | cons b bs ih =>
    obtain ⟨hb, hbs⟩ := List.forall_mem_cons.mp h
    rw [alterList, Std.OrientedCmp.gt_of_lt hb, ih hbs]
    rfl

/-- Keys that come in ascending order are bound one behind the other. -/
theorem toList_foldl_alter {key : κ × β → κ} {f : κ × β → Option β → β} {m : SortedMap κ β}
    {bs : List (κ × β)} (hnew : ∀ b ∈ bs, (key b, f b none) = b)
    (h : (m.toList ++ bs).Pairwise fun a b => compare a.1 b.1 = .lt) :
    (bs.foldl (fun m b => m.alter (key b) (f b)) m).toList = m.toList ++ bs := by
  induction bs generalizing m with
  | nil => exact (List.append_nil _).symm
  | cons b bs ih =>
    obtain ⟨hb, hbs⟩ := List.forall_mem_cons.mp hnew
    have hkey : key b = b.1 := congrArg Prod.fst hb
    have hbefore : ∀ a ∈ m.toList, compare a.1 (key b) = .lt := fun a ha => by
      rw [hkey]
      exact (List.pairwise_append.mp h).2.2 a ha b List.mem_cons_self
    have hstep : (m.alter (key b) (f b)).toList = m.toList ++ [b] :=
      (alterList_of_forall_lt hbefore).trans (by rw [hb])
    rw [List.append_cons, ← hstep] at h ⊢
    exact ih hbs h

theorem ofList_toList (m : SortedMap κ β) : ofList m.toList = m :=
  ext_toList (toList_foldl_alter (fun _ _ => rfl) m.ascending)

end Building

end SortedMap

end Directory
