/-!
# Sorted sets

Finite sets kept as strictly ascending lists. The list is the view in which everything is stated:
two sets with the same members are equal, and a part of a set between two bounds is a part of its
list.
-/

namespace Directory

universe u

/-- A finite set as the strictly ascending list of its members. -/
structure SortedSet (α : Type u) [Ord α] where
  toList : List α
  ascending : toList.Pairwise fun a b => compare a b = .lt

namespace SortedSet

variable {α : Type u} [Ord α]

instance [DecidableEq α] : DecidableEq (SortedSet α) := fun s t =>
  decidable_of_iff (s.toList = t.toList) (by cases s; cases t; simp)

instance [Repr α] : Repr (SortedSet α) := ⟨fun s n => reprPrec s.toList n⟩

/-- The empty set. -/
def empty : SortedSet α := ⟨[], .nil⟩

instance : Inhabited (SortedSet α) := ⟨empty⟩

instance : Membership α (SortedSet α) := ⟨fun s a => a ∈ s.toList⟩

theorem mem_def {s : SortedSet α} {a : α} : a ∈ s ↔ a ∈ s.toList := Iff.rfl

/-- The number of members. -/
def size (s : SortedSet α) : Nat := s.toList.length

/-- There are no members. -/
def isEmpty (s : SortedSet α) : Bool := s.toList.isEmpty

/-- Whether `a` is a member. -/
def contains (s : SortedSet α) (a : α) : Bool := s.toList.any fun b => compare a b == .eq

/-- The members that satisfy the condition. -/
def filter (p : α → Bool) (s : SortedSet α) : SortedSet α :=
  ⟨s.toList.filter p, s.ascending.filter p⟩

/-- Take a member away. -/
def erase (s : SortedSet α) (a : α) : SortedSet α := s.filter fun b => compare a b != .eq

/-- Put `a` into an ascending list. -/
def insertList (a : α) : List α → List α
  | [] => [a]
  | b :: bs =>
    match compare a b with
    | .lt => a :: b :: bs
    | .eq => b :: bs
    | .gt => b :: insertList a bs

theorem mem_insertList [Std.LawfulEqOrd α] {a c : α} {bs : List α} :
    c ∈ insertList a bs ↔ c = a ∨ c ∈ bs := by
  induction bs with
  | nil => simp [insertList]
  | cons b bs ih =>
    rw [insertList]
    split
    · simp
    · next h =>
      obtain rfl := Std.LawfulEqOrd.eq_of_compare h
      simp
    · rw [List.mem_cons, List.mem_cons, ih]
      exact ⟨fun h => by rcases h with h | h | h <;> simp [h],
        fun h => by rcases h with h | h | h <;> simp [h]⟩

theorem ascending_insertList [Std.TransOrd α] [Std.LawfulEqOrd α] (a : α) {bs : List α}
    (h : bs.Pairwise fun a b => compare a b = .lt) :
    (insertList a bs).Pairwise fun a b => compare a b = .lt := by
  induction bs with
  | nil => simp [insertList]
  | cons b bs ih =>
    obtain ⟨hb, hbs⟩ := List.pairwise_cons.mp h
    rw [insertList]
    split
    · next hab =>
      refine List.pairwise_cons.mpr ⟨fun c hc => ?_, h⟩
      rcases List.mem_cons.mp hc with rfl | hc
      · exact hab
      · exact Std.TransCmp.lt_trans hab (hb c hc)
    · exact h
    · next hab =>
      refine List.pairwise_cons.mpr ⟨fun c hc => ?_, ih hbs⟩
      rcases mem_insertList.mp hc with rfl | hc
      · exact Std.OrientedCmp.lt_of_gt hab
      · exact hb c hc

variable [Std.TransOrd α] [Std.LawfulEqOrd α]

/-- Add a member. -/
def insert (a : α) (s : SortedSet α) : SortedSet α :=
  ⟨insertList a s.toList, ascending_insertList a s.ascending⟩

/-- Add members one after the other. -/
def insertAll (as : List α) (s : SortedSet α) : SortedSet α :=
  as.foldl (fun s a => s.insert a) s

/-- The set of the members of a list. -/
def ofList (as : List α) : SortedSet α := insertAll as empty

/-- The members of either set. -/
def union (s t : SortedSet α) : SortedSet α := insertAll t.toList s

/-- The members of both sets. -/
def inter (s t : SortedSet α) : SortedSet α := s.filter t.contains

omit [Std.TransOrd α] [Std.LawfulEqOrd α] in
@[simp] theorem mem_filter {p : α → Bool} {s : SortedSet α} {a : α} :
    a ∈ s.filter p ↔ a ∈ s ∧ p a = true := List.mem_filter

omit [Std.TransOrd α] [Std.LawfulEqOrd α] in
@[simp] theorem not_mem_empty (a : α) : a ∉ (empty : SortedSet α) := List.not_mem_nil

@[simp] theorem mem_insert {a c : α} {s : SortedSet α} : c ∈ s.insert a ↔ c = a ∨ c ∈ s :=
  mem_insertList

@[simp] theorem mem_insertAll {as : List α} {c : α} {s : SortedSet α} :
    c ∈ s.insertAll as ↔ c ∈ as ∨ c ∈ s := by
  induction as generalizing s with
  | nil => simp [insertAll]
  | cons a as ih =>
    have h : s.insertAll (a :: as) = (s.insert a).insertAll as := rfl
    rw [h, ih, mem_insert, List.mem_cons]
    exact ⟨fun h => by rcases h with h | h | h <;> simp [h],
      fun h => by rcases h with (h | h) | h <;> simp [h]⟩

@[simp] theorem mem_ofList {as : List α} {c : α} : c ∈ ofList as ↔ c ∈ as := by
  simp [ofList]

@[simp] theorem mem_union {s t : SortedSet α} {c : α} : c ∈ s.union t ↔ c ∈ s ∨ c ∈ t := by
  rw [union, mem_insertAll, or_comm]; rfl

omit [Std.TransOrd α] in
theorem contains_iff {s : SortedSet α} {a : α} : s.contains a = true ↔ a ∈ s := by
  simp only [contains, List.any_eq_true, beq_iff_eq, Std.LawfulEqOrd.compare_eq_iff_eq, mem_def]
  exact ⟨fun ⟨b, hb, h⟩ => h ▸ hb, fun h => ⟨a, h, rfl⟩⟩

omit [Std.TransOrd α] in
@[simp] theorem mem_inter {s t : SortedSet α} {c : α} : c ∈ s.inter t ↔ c ∈ s ∧ c ∈ t := by
  rw [inter, mem_filter, contains_iff]

end SortedSet

end Directory
