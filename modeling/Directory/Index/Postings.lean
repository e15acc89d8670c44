import Directory.Entry
import Directory.Sorted.Set

/-!
# Postings

The contents of an index: pairs of a key and the id of an entry that has it. They are kept twice,
ordered by key (`forward`) and ordered by id (`reverse`), so that both the entries of a range of
keys and the keys of an entry are stretches of a sorted list.
-/

namespace Directory

instance : Ord (NormalValue × EntryId) := lexOrd
instance : Ord (EntryId × NormalValue) := lexOrd

instance : Std.TransOrd (NormalValue × EntryId) :=
  inferInstanceAs (Std.TransCmp (compareLex _ _))
instance : Std.TransOrd (EntryId × NormalValue) :=
  inferInstanceAs (Std.TransCmp (compareLex _ _))

instance : Std.LawfulEqOrd (NormalValue × EntryId) where
  eq_of_compare {a b} h := by
    have h : compareLex (compareOn Prod.fst) (compareOn Prod.snd) a b = .eq := h
    simp only [compareLex_eq_eq, compareOn] at h
    exact Prod.ext (Std.LawfulEqOrd.eq_of_compare h.1) (Std.LawfulEqOrd.eq_of_compare h.2)

instance : Std.LawfulEqOrd (EntryId × NormalValue) where
  eq_of_compare {a b} h := by
    have h : compareLex (compareOn Prod.fst) (compareOn Prod.snd) a b = .eq := h
    simp only [compareLex_eq_eq, compareOn] at h
    exact Prod.ext (Std.LawfulEqOrd.eq_of_compare h.1) (Std.LawfulEqOrd.eq_of_compare h.2)

/-- Pairs of a key and an entry id, by key and by id. -/
structure Postings where
  forward : SortedSet (NormalValue × EntryId)
  reverse : SortedSet (EntryId × NormalValue)
  deriving DecidableEq, Repr, Inhabited

namespace Postings

/-- No pairs. -/
def empty : Postings := ⟨.empty, .empty⟩

/-- Give an entry a key. -/
def insert (p : Postings) (key : NormalValue) (id : EntryId) : Postings :=
  ⟨p.forward.insert (key, id), p.reverse.insert (id, key)⟩

/-- Give an entry several keys. -/
def insertAll (p : Postings) (keys : List NormalValue) (id : EntryId) : Postings :=
  keys.foldl (fun p key => p.insert key id) p

/-- Take one key of an entry away. -/
def remove (p : Postings) (key : NormalValue) (id : EntryId) : Postings :=
  ⟨p.forward.erase (key, id), p.reverse.erase (id, key)⟩

/-- The number of pairs. -/
def size (p : Postings) : Nat := p.forward.size

/-- The key of the pair is at least `lower`. -/
def keyAtLeast (lower : NormalValue) (pair : NormalValue × EntryId) : Bool :=
  compare pair.1 lower != .lt

/-- The key of the pair is at most `upper`. -/
def keyAtMost (upper : NormalValue) (pair : NormalValue × EntryId) : Bool :=
  compare pair.1 upper != .gt

/-- The pairs from the first key that is at least `lower`. -/
def startingAt (p : Postings) (lower : NormalValue) : List (NormalValue × EntryId) :=
  p.forward.toList.dropWhile fun pair => !keyAtLeast lower pair

/-- The pairs up to the last key that is at most `upper`. -/
def endingAt (p : Postings) (upper : NormalValue) : List (NormalValue × EntryId) :=
  p.forward.toList.takeWhile (keyAtMost upper)

/-- The pairs with a key between the bounds, both included. -/
def within (p : Postings) (lower upper : NormalValue) : List (NormalValue × EntryId) :=
  (p.startingAt lower).takeWhile (keyAtMost upper)

/-- The keys of an entry, ascending. -/
def keysOf (p : Postings) (id : EntryId) : List NormalValue :=
  ((p.reverse.toList.dropWhile fun pair => compare pair.1 id == .lt).takeWhile
    fun pair => pair.1 == id).map Prod.snd

/-- Take all keys of an entry away. The reverse side tells which they are. -/
def removeId (p : Postings) (id : EntryId) : Postings :=
  (p.keysOf id).foldl (fun p key => p.remove key id) p

end Postings

/-- The ids of a list of pairs. -/
def idsOf (pairs : List (NormalValue × EntryId)) : SortedSet EntryId :=
  .ofList (pairs.map Prod.snd)

theorem mem_idsOf {pairs : List (NormalValue × EntryId)} {id : EntryId} :
    id ∈ idsOf pairs ↔ ∃ key, (key, id) ∈ pairs := by
  simp [idsOf]

end Directory
