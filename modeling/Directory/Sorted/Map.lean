/-!
# Sorted maps

Finite maps kept as lists of bindings with strictly ascending keys.
-/

namespace Directory

universe u v

/-- A finite map as the list of its bindings, in strictly ascending order of the keys. -/
structure SortedMap (κ : Type u) (β : Type v) [Ord κ] where
  toList : List (κ × β)
  ascending : toList.Pairwise fun a b => compare a.1 b.1 = .lt

namespace SortedMap

variable {κ : Type u} {β : Type v} [Ord κ]

instance [DecidableEq κ] [DecidableEq β] : DecidableEq (SortedMap κ β) := fun s t =>
  decidable_of_iff (s.toList = t.toList) (by cases s; cases t; simp)

instance [Repr κ] [Repr β] : Repr (SortedMap κ β) := ⟨fun m n => reprPrec m.toList n⟩

/-- The map without bindings. -/
def empty : SortedMap κ β := ⟨[], .nil⟩

instance : Inhabited (SortedMap κ β) := ⟨empty⟩

/-- The number of bindings. -/
def size (m : SortedMap κ β) : Nat := m.toList.length

/-- The values in the order of their keys. -/
def values (m : SortedMap κ β) : List β := m.toList.map Prod.snd

/-- The value bound to the key. -/
def find? (m : SortedMap κ β) (k : κ) : Option β :=
  (m.toList.find? fun b => compare k b.1 == .eq).map Prod.snd

/-- The key is bound. -/
def contains (m : SortedMap κ β) (k : κ) : Bool := (m.find? k).isSome

/-- Unbind the key. -/
def erase (m : SortedMap κ β) (k : κ) : SortedMap κ β :=
  ⟨m.toList.filter fun b => compare k b.1 != .eq, m.ascending.filter _⟩

/-- Bind `k` to a value computed from the value bound so far. -/
def alterList (k : κ) (f : Option β → β) : List (κ × β) → List (κ × β)
  | [] => [(k, f none)]
  | b :: bs =>
    match compare k b.1 with
    | .lt => (k, f none) :: b :: bs
    | .eq => (b.1, f (some b.2)) :: bs
    | .gt => b :: alterList k f bs

theorem mem_keys_alterList [Std.LawfulEqOrd κ] {k c : κ} {f : Option β → β} {bs : List (κ × β)} :
    c ∈ (alterList k f bs).map Prod.fst ↔ c = k ∨ c ∈ bs.map Prod.fst := by
  induction bs with
  | nil => simp [alterList]
  | cons b bs ih =>
    rw [alterList]
    split
    · simp
    · next h =>
      obtain rfl := Std.LawfulEqOrd.eq_of_compare h
      simp
    · rw [List.map_cons, List.mem_cons, ih, List.map_cons, List.mem_cons]
      exact ⟨fun h => by rcases h with h | h | h <;> simp [h],
        fun h => by rcases h with h | h | h <;> simp [h]⟩

theorem ascending_alterList [Std.TransOrd κ] [Std.LawfulEqOrd κ] (k : κ) (f : Option β → β)
    {bs : List (κ × β)} (h : bs.Pairwise fun a b => compare a.1 b.1 = .lt) :
    (alterList k f bs).Pairwise fun a b => compare a.1 b.1 = .lt := by
  induction bs with
  | nil => simp [alterList]
  | cons b bs ih =>
    obtain ⟨hb, hbs⟩ := List.pairwise_cons.mp h
    rw [alterList]
    split
    · next hkb =>
      refine List.pairwise_cons.mpr ⟨fun c hc => ?_, h⟩
      rcases List.mem_cons.mp hc with rfl | hc
      · exact hkb
      · exact Std.TransCmp.lt_trans hkb (hb c hc)
    · exact List.pairwise_cons.mpr ⟨fun c hc => hb c hc, hbs⟩
    · next hkb =>
      refine List.pairwise_cons.mpr ⟨fun c hc => ?_, ih hbs⟩
      rcases mem_keys_alterList.mp (List.mem_map_of_mem hc) with hck | hck
      · rw [hck]; exact Std.OrientedCmp.lt_of_gt hkb
      · obtain ⟨d, hd, hdc⟩ := List.mem_map.mp hck
        rw [← hdc]; exact hb d hd

variable [Std.TransOrd κ] [Std.LawfulEqOrd κ]

/-- Bind the key to a value computed from the value bound so far. -/
def alter (m : SortedMap κ β) (k : κ) (f : Option β → β) : SortedMap κ β :=
  ⟨alterList k f m.toList, ascending_alterList k f m.ascending⟩

/-- Bind the key, whatever it was bound to. -/
def insert (m : SortedMap κ β) (k : κ) (v : β) : SortedMap κ β := m.alter k fun _ => v

/-- The bindings of a list; of repeated keys the last one counts. -/
def ofList (bs : List (κ × β)) : SortedMap κ β :=
  bs.foldl (fun m b => m.insert b.1 b.2) empty

end SortedMap

end Directory
