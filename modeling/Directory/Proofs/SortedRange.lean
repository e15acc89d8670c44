import Directory.Proofs.Postings
import Directory.Value.Normalizer

/-!
# Ranges of a sorted set

A range has two ends, each of which belongs to it, is left out, or is missing. A set refuses a range
whose start lies behind its end (`SortedSet.range?`). The sides of an index are sorted by pairs, so
that what is asked of them becomes a range of pairs, with the least or the greatest second component
at its ends:

* `keyRange` makes a range of pairs out of a range of keys. It is ordered when the range of keys is
  (`ordered_keyRange`) and has the pairs whose keys belong to that (`admits_keyRange`);
* `idRange` has the pairs of one id (`admits_idRange`), up to the first one of the next id. The
  greatest id has no next one.
-/

namespace Directory

universe u

/-- An end of a range. -/
inductive RangeEnd (α : Type u) where
  | included (a : α)
  | excluded (a : α)
  | unbounded
  deriving DecidableEq, Repr

/-- A range of a sorted set. -/
structure SortedRange (α : Type u) where
  lower : RangeEnd α
  upper : RangeEnd α
  deriving DecidableEq, Repr

section Ranges

variable {α : Type u} [Ord α]

/-- The range does not begin behind this member. -/
def RangeEnd.isBelow (e : RangeEnd α) (a : α) : Bool :=
  match e with
  | included b => (compare a b).isGE
  | excluded b => (compare a b).isGT
  | unbounded => true

/-- The range does not end before this member. -/
def RangeEnd.isAbove (e : RangeEnd α) (a : α) : Bool :=
  match e with
  | included b => (compare a b).isLE
  | excluded b => (compare a b).isLT
  | unbounded => true

namespace SortedRange

/-- The member belongs to the range. -/
def admits (r : SortedRange α) (a : α) : Bool := r.lower.isBelow a && r.upper.isAbove a

/-- The start does not lie behind the end, and is not left out where the end is left out too. -/
def ordered (r : SortedRange α) : Bool :=
  match r.lower, r.upper with
  | .unbounded, _ | _, .unbounded => true
  | .excluded a, .excluded b => (compare a b).isLT
  | .included a, .included b | .included a, .excluded b | .excluded a, .included b =>
    (compare a b).isLE

end SortedRange

/-- The members that belong to the range, ascending. A range that is not ordered is refused. -/
def SortedSet.range? (s : SortedSet α) (r : SortedRange α) : Option (List α) :=
  if r.ordered then some (s.toList.filter r.admits) else none

theorem SortedSet.range?_eq_some {r : SortedRange α} (h : r.ordered = true) (s : SortedSet α) :
    s.range? r = some (s.toList.filter r.admits) := if_pos h

end Ranges

/-! ### Ranges of keys -/

/-- The least id. -/
def leastId : EntryId := 0

/-- The greatest id. -/
def greatestId : EntryId := 0xFFFFFFFFFFFFFFFF

theorem isGE_leastId (id : EntryId) : (compare id leastId).isGE = true :=
  Std.isGE_compare.mpr UInt64.zero_le

theorem isLE_greatestId (id : EntryId) : (compare id greatestId).isLE = true :=
  Std.isLE_compare.mpr (UInt64.le_iff_toNat_le.mpr (Nat.le_of_lt_succ id.toNat_lt))

/-- The range of pairs whose keys lie between these ends. A key at an end brings along all its pairs
or none of them. -/
def keyRange (lower upper : RangeEnd NormalValue) : SortedRange (NormalValue × EntryId) where
  lower :=
    match lower with
    | .included key => .included (key, leastId)
    | .excluded key => .excluded (key, greatestId)
    | .unbounded => .unbounded
  upper :=
    match upper with
    | .included key => .included (key, greatestId)
    | .excluded key => .excluded (key, leastId)
    | .unbounded => .unbounded

section Ties

variable {o tie : Ordering}

theorem isGE_then (h : tie.isGE = true) : (o.then tie).isGE = o.isGE := by
  cases o with
  | eq => exact h
  | lt | gt => rfl

theorem isLE_then (h : tie.isLE = true) : (o.then tie).isLE = o.isLE := by
  cases o with
  | eq => exact h
  | lt | gt => rfl

theorem isGT_then (h : tie.isLE = true) : (o.then tie).isGT = o.isGT := by
  revert h
  cases o <;> cases tie <;> decide

theorem isLT_then (h : tie.isGE = true) : (o.then tie).isLT = o.isLT := by
  revert h
  cases o <;> cases tie <;> decide

end Ties

/-- A range of pairs asks for nothing but the key. -/
theorem admits_keyRange (lower upper : RangeEnd NormalValue) (key : NormalValue) (id : EntryId) :
    (keyRange lower upper).admits (key, id) = (SortedRange.mk lower upper).admits key := by
  have hlower : (keyRange lower upper).lower.isBelow (key, id) = lower.isBelow key := by
    cases lower with
    | included v => exact isGE_then (isGE_leastId id)
    | excluded v => exact isGT_then (isLE_greatestId id)
    | unbounded => rfl
  have hupper : (keyRange lower upper).upper.isAbove (key, id) = upper.isAbove key := by
    cases upper with
    | included v => exact isLE_then (isLE_greatestId id)
    | excluded v => exact isLT_then (isGE_leastId id)
    | unbounded => rfl
  rw [SortedRange.admits, hlower, hupper]
  rfl

/-- A range of pairs is ordered when the range of keys is. -/
theorem ordered_keyRange (lower upper : RangeEnd NormalValue) :
    (keyRange lower upper).ordered = (SortedRange.mk lower upper).ordered := by
  cases lower with
  | unbounded => rfl
  | included v =>
    cases upper with
    | unbounded => rfl
    | included w => exact isLE_then (isLE_greatestId leastId)
    | excluded w => exact isLE_then (isLE_greatestId leastId)
  | excluded v =>
    cases upper with
    | unbounded => rfl
    | included w => exact isLE_then (isLE_greatestId greatestId)
    | excluded w => exact isLT_then (isGE_leastId greatestId)

/-! ### The range of an id -/

/-- The value is one that the program has: any text, and an integer of 64 bits. -/
def NormalValue.IsRepresentable : NormalValue → Prop
  | integer n => isNumericValue n = true
  | text _ => True

instance : DecidablePred NormalValue.IsRepresentable
  | .integer n => inferInstanceAs (Decidable (isNumericValue n = true))
  | .text _ => inferInstanceAs (Decidable True)

/-- The least value. -/
def leastValue : NormalValue := .integer (-0x8000000000000000)

theorem isGE_leastValue {v : NormalValue} (h : v.IsRepresentable) :
    (compare v leastValue).isGE = true := by
  cases v with
  | text s => rfl
  | integer n =>
    have hn : isNumericValue n = true := h
    rw [isNumericValue, Bool.and_eq_true, decide_eq_true_iff] at hn
    have hcompare : (compare n (-0x8000000000000000)).isGE = true := Std.isGE_compare.mpr hn.1
    exact hcompare

/-- The range of the pairs of an id, up to the first one of the next id. -/
def idRange (id : EntryId) : SortedRange (EntryId × NormalValue) where
  lower := .included (id, leastValue)
  upper := if id = greatestId then .unbounded else .excluded (id + 1, leastValue)

theorem toNat_greatestId : greatestId.toNat = 0xFFFFFFFFFFFFFFFF := rfl

/-- Every id but the greatest has a next one. -/
theorem toNat_succ {id : EntryId} (h : id ≠ greatestId) : (id + 1).toNat = id.toNat + 1 := by
  have hle : id.toNat ≤ greatestId.toNat :=
    UInt64.le_iff_toNat_le.mp (Std.isLE_compare.mp (isLE_greatestId id))
  have hne : id.toNat ≠ greatestId.toNat := fun heq => h (UInt64.toNat_inj.mp heq)
  rw [toNat_greatestId] at hle hne
  rw [UInt64.toNat_add, UInt64.toNat_one]
  omega

theorem ordered_idRange (id : EntryId) : (idRange id).ordered = true := by
  unfold idRange
  split
  · rfl
  · next h =>
    have hlt : id < id + 1 := UInt64.lt_iff_toNat_lt.mpr (by rw [toNat_succ h]; omega)
    have hcompare : compare id (id + 1) = .lt := Std.compare_eq_lt.mpr hlt
    show ((compare id (id + 1)).then (compare leastValue leastValue)).isLE = true
    rw [hcompare]
    rfl

/-- The range of an id has its pairs and no others. -/
theorem admits_idRange (id i : EntryId) {key : NormalValue} (h : key.IsRepresentable) :
    (idRange id).admits (i, key) = (i == id) := by
  have hkey : (compare key leastValue).isGE = true := isGE_leastValue h
  have hlower : (RangeEnd.included (id, leastValue)).isBelow (i, key) = (compare i id).isGE :=
    isGE_then hkey
  have hupper : (RangeEnd.excluded (id + 1, leastValue)).isAbove (i, key) =
      (compare i (id + 1)).isLT := isLT_then hkey
  rw [Bool.eq_iff_iff, beq_iff_eq, idRange, SortedRange.admits, hlower, Bool.and_eq_true,
    Std.isGE_compare]
  split
  · next hid =>
    have hle : i ≤ id := hid ▸ Std.isLE_compare.mp (isLE_greatestId i)
    exact ⟨fun hi => UInt64.le_antisymm hle hi.1, fun hi => ⟨hi ▸ UInt64.le_refl i, rfl⟩⟩
  · next hid =>
    rw [hupper, Ordering.isLT_iff_eq_lt, Std.compare_eq_lt, UInt64.le_iff_toNat_le,
      UInt64.lt_iff_toNat_lt, toNat_succ hid, ← UInt64.toNat_inj]
    omega

/-! ### Queries as ranges -/

namespace Postings

variable {lower upper : RangeEnd NormalValue}

theorem range?_keyRange (p : Postings) (h : (SortedRange.mk lower upper).ordered = true) :
    p.forward.range? (keyRange lower upper) =
      some (p.forward.toList.filter fun pair => (SortedRange.mk lower upper).admits pair.1) := by
  rw [SortedSet.range?_eq_some (by rw [ordered_keyRange, h])]
  exact congrArg some (List.filter_congr fun pair _ => admits_keyRange lower upper pair.1 pair.2)

theorem isBelow_included (bound : NormalValue) (pair : NormalValue × EntryId) :
    (RangeEnd.included bound).isBelow pair.1 = keyAtLeast bound pair := by
  rw [RangeEnd.isBelow, Bool.eq_iff_iff, keyAtLeast_iff]

theorem isAbove_included (bound : NormalValue) (pair : NormalValue × EntryId) :
    (RangeEnd.included bound).isAbove pair.1 = keyAtMost bound pair := by
  rw [RangeEnd.isAbove, Bool.eq_iff_iff, keyAtMost_iff]

theorem range?_startingAt (p : Postings) (bound : NormalValue) :
    p.forward.range? (keyRange (.included bound) .unbounded) = some (p.startingAt bound) := by
  rw [range?_keyRange p rfl, startingAt_eq_filter]
  refine congrArg some (List.filter_congr fun pair _ => ?_)
  rw [SortedRange.admits, isBelow_included, RangeEnd.isAbove, Bool.and_true]

theorem range?_endingAt (p : Postings) (bound : NormalValue) :
    p.forward.range? (keyRange .unbounded (.included bound)) = some (p.endingAt bound) := by
  rw [range?_keyRange p rfl, endingAt, takeWhile_keyAtMost bound p.forward_keys]
  refine congrArg some (List.filter_congr fun pair _ => ?_)
  rw [SortedRange.admits, isAbove_included, RangeEnd.isBelow, Bool.true_and]

theorem range?_within (p : Postings) {least greatest : NormalValue}
    (h : (compare least greatest).isLE = true) :
    p.forward.range? (keyRange (.included least) (.included greatest)) =
      some (p.within least greatest) := by
  have hordered : (SortedRange.mk (.included least) (.included greatest)).ordered = true := h
  rw [range?_keyRange p hordered, within, startingAt_eq_filter,
    takeWhile_keyAtMost greatest (p.forward_keys.filter _), List.filter_filter]
  refine congrArg some (List.filter_congr fun pair _ => ?_)
  rw [SortedRange.admits, isBelow_included, isAbove_included, Bool.and_comm]

theorem range?_idRange (p : Postings) (id : EntryId)
    (h : ∀ pair ∈ p.reverse.toList, pair.2.IsRepresentable) :
    (p.reverse.range? (idRange id)).map (List.map Prod.snd) = some (p.keysOf id) := by
  have hpairs : p.reverse.toList.filter (idRange id).admits =
      p.reverse.toList.filter fun pair => pair.1 == id :=
    List.filter_congr fun pair hpair => admits_idRange id pair.1 (h pair hpair)
  rw [SortedSet.range?_eq_some (ordered_idRange id), keysOf_eq_filter, Option.map_some, hpairs]

end Postings

end Directory
