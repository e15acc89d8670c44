import Directory.Index.AttributeIndex
import Directory.Proofs.SortedRange
import Mathlib.Data.Set.Card

/-!
# What an index answers

An index that was empty has been written to. What it holds is one set of pairs (`heldPairs`): those
that were inserted and whose id was not removed since. All its queries are questions about this set
(`AttributeIndex.Answers`), whether they read the forward side or the reverse side, and each of them
can be asked as a range: ranges of pairs with the least and the greatest second component at their
ends give the same answers, and none of them is refused.

* `mem_heldPairs_concat` and `mem_forward_performAll`: what one write does, and what all of them do;
* `AttributeIndex.answers_performAll`: every query after any writes.
-/

namespace Directory

/-- A write to an index. -/
inductive IndexWrite where
  | insert (key : NormalValue) (id : EntryId)
  | insertAll (pairs : List (NormalValue × EntryId))
  | removeId (id : EntryId)
  deriving DecidableEq, Repr

namespace IndexWrite

/-- The pairs that the write inserts. -/
def inserted : IndexWrite → List (NormalValue × EntryId)
  | insert key id => [(key, id)]
  | insertAll pairs => pairs
  | removeId _ => []

/-- The contents of an index after the write. -/
def perform (p : Postings) : IndexWrite → Postings
  | insert key id => p.insert key id
  | insertAll pairs => pairs.foldl (fun p pair => p.insert pair.1 pair.2) p
  | removeId id => p.removeId id

end IndexWrite

/-- The pairs that the writes have inserted and not removed since. -/
def heldPairs (ws : List IndexWrite) : Set (NormalValue × EntryId) :=
  {pair | ∃ before w after, ws = before ++ w :: after ∧ pair ∈ w.inserted ∧
    IndexWrite.removeId pair.2 ∉ after}

namespace AttributeIndex

/-- The index after the writes. -/
def performAll (ix : AttributeIndex) (ws : List IndexWrite) : AttributeIndex :=
  { ix with postings := ws.foldl IndexWrite.perform ix.postings }

end AttributeIndex

/-! ### What writes do -/

section Writes

variable {p : Postings} {ws : List IndexWrite} {w : IndexWrite} {key : NormalValue} {id : EntryId}
  {pair : NormalValue × EntryId}

/-- One more write adds the pairs that it inserts, or takes the pairs of an id away. -/
theorem mem_heldPairs_concat :
    pair ∈ heldPairs (ws ++ [w]) ↔
      pair ∈ w.inserted ∨ pair ∈ heldPairs ws ∧ w ≠ .removeId pair.2 := by
  constructor
  · rintro ⟨before, v, after, hws, hpair, hkept⟩
    rcases List.eq_nil_or_concat after with rfl | ⟨after, u, rfl⟩
    · obtain ⟨-, hv⟩ := List.append_inj' hws rfl
      cases hv
      exact .inl hpair
    · rw [List.concat_eq_append, ← List.cons_append, ← List.append_assoc] at hws
      obtain ⟨rfl, hu⟩ := List.append_inj' hws rfl
      cases hu
      rw [List.concat_eq_append, List.mem_append, List.mem_singleton, not_or] at hkept
      exact .inr ⟨⟨before, v, after, rfl, hpair, hkept.1⟩, fun h => hkept.2 h.symm⟩
  · rintro (hpair | ⟨⟨before, v, after, rfl, hpair, hkept⟩, hw⟩)
    · exact ⟨ws, w, [], rfl, hpair, List.not_mem_nil⟩
    · refine ⟨before, v, after ++ [w], by simp, hpair, ?_⟩
      rw [List.mem_append, List.mem_singleton, not_or]
      exact ⟨hkept, fun h => hw h.symm⟩

theorem not_mem_heldPairs_nil : pair ∉ heldPairs [] := by
  rintro ⟨before, w, after, h, -⟩
  exact absurd h.symm (by simp)

theorem mem_forward_insertPairs {pairs : List (NormalValue × EntryId)} :
    (key, id) ∈ (pairs.foldl (fun p pair => p.insert pair.1 pair.2) p).forward ↔
      (key, id) ∈ pairs ∨ (key, id) ∈ p.forward := by
  induction pairs generalizing p with
  | nil => simp
  | cons pair pairs ih =>
    rw [List.foldl_cons, ih]
    simp only [Postings.insert, SortedSet.mem_insert, List.mem_cons, Prod.mk.eta]
    tauto

theorem mirrored_insertPairs (h : p.Mirrored) (pairs : List (NormalValue × EntryId)) :
    (pairs.foldl (fun p pair => p.insert pair.1 pair.2) p).Mirrored := by
  induction pairs generalizing p with
  | nil => exact h
  | cons pair pairs ih => exact ih (h.insert pair.1 pair.2)

theorem IndexWrite.mirrored_perform (h : p.Mirrored) (w : IndexWrite) : (w.perform p).Mirrored := by
  cases w with
  | insert key id => exact h.insert key id
  | insertAll pairs => exact mirrored_insertPairs h pairs
  | removeId id => exact h.removeId id

theorem IndexWrite.mem_forward_perform (h : p.Mirrored) :
    (key, id) ∈ (w.perform p).forward ↔
      (key, id) ∈ w.inserted ∨ (key, id) ∈ p.forward ∧ w ≠ .removeId id := by
  cases w with
  | insert key' id' => simp [perform, inserted, Postings.insert]
  | insertAll pairs => simp [perform, inserted, mem_forward_insertPairs]
  | removeId id' =>
    have hne : IndexWrite.removeId id' ≠ .removeId id ↔ id ≠ id' := by simp [eq_comm]
    simp [perform, inserted, h.mem_forward_removeId, hne]

/-- **What an index holds after writes.** -/
theorem mem_forward_performAll (ws : List IndexWrite) :
    (ws.foldl IndexWrite.perform .empty).Mirrored ∧ ∀ key id,
      (key, id) ∈ (ws.foldl IndexWrite.perform .empty).forward ↔ (key, id) ∈ heldPairs ws := by
  induction ws using List.reverseRecOn with
  | nil =>
    refine ⟨Postings.mirrored_empty, fun key id => ?_⟩
    exact iff_of_false (SortedSet.not_mem_empty _) not_mem_heldPairs_nil
  | append_singleton ws w ih =>
    obtain ⟨hmirrored, hforward⟩ := ih
    rw [List.foldl_concat]
    refine ⟨w.mirrored_perform hmirrored, fun key id => ?_⟩
    rw [IndexWrite.mem_forward_perform hmirrored, hforward, mem_heldPairs_concat]

end Writes

/-! ### Queries -/

/-- A list that has the members of a set, each once, is as long as the set is large. -/
theorem length_eq_ncard {α : Type} [DecidableEq α] {l : List α} {S : Set α} (hnodup : l.Nodup)
    (h : ∀ a, a ∈ l ↔ a ∈ S) : l.length = S.ncard := by
  have hS : S = ↑l.toFinset := Set.ext fun a => by simp [h]
  rw [hS, Set.ncard_coe_finset, List.toFinset_card_of_nodup hnodup]

namespace AttributeIndex

/-- Every query of the index is answered from this set of pairs, in the order of its rule. -/
structure Answers (ix : AttributeIndex) (P : Set (NormalValue × EntryId)) : Prop where
  forward : ∀ key id, (key, id) ∈ ix.postings.forward ↔ (key, id) ∈ P
  reverse : ∀ key id, (id, key) ∈ ix.postings.reverse ↔ (key, id) ∈ P
  removeId_forward : ∀ id key i,
    (key, i) ∈ (ix.removeId id).postings.forward ↔ (key, i) ∈ P ∧ i ≠ id
  removeId_reverse : ∀ id key i,
    (i, key) ∈ (ix.removeId id).postings.reverse ↔ (key, i) ∈ P ∧ i ≠ id
  idsWith : ∀ key id, id ∈ ix.idsWith key ↔ (key, id) ∈ P
  idsAtLeast : ∀ bound id, id ∈ ix.idsAtLeast bound ↔
    ∃ key, (key, id) ∈ P ∧ (ix.rule.compare key bound).isGE = true
  idsAtMost : ∀ bound id, id ∈ ix.idsAtMost bound ↔
    ∃ key, (key, id) ∈ P ∧ (ix.rule.compare key bound).isLE = true
  idsBetween : ∀ lower upper id, id ∈ ix.idsBetween lower upper ↔
    ∃ key, (key, id) ∈ P ∧ (ix.rule.compare key lower).isGE = true ∧
      (ix.rule.compare key upper).isLE = true
  holds : ∀ key id, ix.holds key id = true ↔ (key, id) ∈ P
  keysOf : ∀ id key, key ∈ ix.keysOf id ↔ (key, id) ∈ P
  keysOf_ascending : ∀ id, (ix.keysOf id).Pairwise fun a b => ix.rule.compare a b = .lt
  hasKeys : ∀ id, ix.hasKeys id = true ↔ ∃ key, (key, id) ∈ P
  hasKeyAtLeast : ∀ id bound, ix.hasKeyAtLeast id bound = true ↔
    ∃ key, (key, id) ∈ P ∧ (ix.rule.compare key bound).isGE = true
  hasKeyAtMost : ∀ id bound, ix.hasKeyAtMost id bound = true ↔
    ∃ key, (key, id) ∈ P ∧ (ix.rule.compare key bound).isLE = true
  size : ix.size = P.ncard
  countOf : ∀ key, ix.countOf key = {id | (key, id) ∈ P}.ncard
  countAtLeast : ∀ bound, ix.countAtLeast bound =
    {pair ∈ P | (ix.rule.compare pair.1 bound).isGE = true}.ncard
  countAtMost : ∀ bound, ix.countAtMost bound =
    {pair ∈ P | (ix.rule.compare pair.1 bound).isLE = true}.ncard

variable {ix : AttributeIndex} {P : Set (NormalValue × EntryId)}

theorem answers_of_mirrored (h : ix.postings.Mirrored)
    (hP : ∀ key id, (key, id) ∈ ix.postings.forward ↔ (key, id) ∈ P) : ix.Answers P := by
  have hremoved : ∀ id key i,
      (key, i) ∈ (ix.removeId id).postings.forward ↔ (key, i) ∈ P ∧ i ≠ id := fun id key i => by
    rw [← hP]
    exact h.mem_forward_removeId
  have hkeys : ∀ id key, key ∈ ix.keysOf id ↔ (key, id) ∈ P := fun id key => by
    rw [AttributeIndex.keysOf, Postings.mem_keysOf, h, hP]
  have hwith : ∀ key id, id ∈ ix.idsWith key ↔ (key, id) ∈ P := fun key id => by
    simp [AttributeIndex.idsWith, mem_idsOf, Postings.mem_within_self, hP]
  -- the pairs of a query are pairs of the set, each once
  have hcount : ∀ {pairs : List (NormalValue × EntryId)} {Q : Set (NormalValue × EntryId)},
      pairs.Sublist ix.postings.forward.toList → (∀ key id, (key, id) ∈ pairs ↔ (key, id) ∈ Q) →
        pairs.length = Q.ncard := fun hsub hQ =>
    length_eq_ncard (ix.postings.forward.nodup.sublist hsub) fun pair => hQ pair.1 pair.2
  constructor
  case forward => exact hP
  case reverse => exact fun key id => (h key id).trans (hP key id)
  case removeId_forward => exact hremoved
  case removeId_reverse => exact fun id key i => (h.removeId id key i).trans (hremoved id key i)
  case idsWith => exact hwith
  case idsAtLeast =>
    simp [AttributeIndex.idsAtLeast, mem_idsOf, Postings.mem_startingAt, hP,
      MatchingRule.compare_eq]
  case idsAtMost =>
    simp [AttributeIndex.idsAtMost, mem_idsOf, Postings.mem_endingAt, hP, MatchingRule.compare_eq]
  case idsBetween =>
    intro lower upper id
    rw [AttributeIndex.idsBetween]
    split
    · next hinverted =>
      refine iff_of_false (SortedSet.not_mem_empty id) ?_
      rintro ⟨key, -, hlower, hupper⟩
      rw [MatchingRule.compare_eq] at hinverted hlower hupper
      have hle : (compare lower key).isLE = true := by
        rwa [Std.OrientedOrd.eq_swap, Ordering.isLE_swap]
      have hsorted : (compare lower upper).isLE = true := Std.TransOrd.isLE_trans hle hupper
      cases h : compare lower upper <;> rw [h] at hinverted hsorted <;> contradiction
    · simp [mem_idsOf, Postings.mem_within, hP, MatchingRule.compare_eq]
  case holds => simp [AttributeIndex.holds, SortedSet.contains_iff, hP]
  case keysOf => exact hkeys
  case keysOf_ascending =>
    intro id
    simp only [MatchingRule.compare_eq]
    exact ix.postings.keysOf_ascending id
  case hasKeys => simp [AttributeIndex.hasKeys, List.eq_nil_iff_forall_not_mem, hkeys]
  case hasKeyAtLeast => simp [AttributeIndex.hasKeyAtLeast, hkeys]
  case hasKeyAtMost => simp [AttributeIndex.hasKeyAtMost, hkeys]
  case size => exact hcount (List.Sublist.refl _) hP
  case countOf => exact fun key => length_eq_ncard (ix.idsWith key).nodup (hwith key)
  case countAtLeast =>
    refine fun bound => hcount (List.dropWhile_sublist _) fun key id => ?_
    rw [Postings.mem_startingAt, hP, ← MatchingRule.compare_eq ix.rule]
    rfl
  case countAtMost =>
    refine fun bound => hcount (List.takeWhile_sublist _) fun key id => ?_
    rw [Postings.mem_endingAt, hP, ← MatchingRule.compare_eq ix.rule]
    rfl

/-! ### Queries as ranges -/

/-- The ids of the pairs whose keys lie between these ends, asked for as a range of pairs. -/
def idsInRange? (ix : AttributeIndex) (lower upper : RangeEnd NormalValue) :
    Option (SortedSet EntryId) :=
  (ix.postings.forward.range? (keyRange lower upper)).map idsOf

/-- The number of pairs whose keys lie between these ends, asked for as a range of pairs. -/
def countInRange? (ix : AttributeIndex) (lower upper : RangeEnd NormalValue) : Option Nat :=
  (ix.postings.forward.range? (keyRange lower upper)).map List.length

/-- The keys of an id, asked for as a range of pairs. -/
def keysInRange? (ix : AttributeIndex) (id : EntryId) : Option (List NormalValue) :=
  (ix.postings.reverse.range? (idRange id)).map (List.map Prod.snd)

/-- The queries of the index are ranges. None of them is refused, and inverted bounds are not asked
for. -/
structure ReadsRanges (ix : AttributeIndex) : Prop where
  idsWith : ∀ key, ix.idsInRange? (.included key) (.included key) = some (ix.idsWith key)
  idsAtLeast : ∀ bound, ix.idsInRange? (.included bound) .unbounded = some (ix.idsAtLeast bound)
  idsAtMost : ∀ bound, ix.idsInRange? .unbounded (.included bound) = some (ix.idsAtMost bound)
  idsBetween : ∀ lower upper, (ix.rule.compare lower upper).isGT = false →
    ix.idsInRange? (.included lower) (.included upper) = some (ix.idsBetween lower upper)
  countAtLeast : ∀ bound,
    ix.countInRange? (.included bound) .unbounded = some (ix.countAtLeast bound)
  countAtMost : ∀ bound,
    ix.countInRange? .unbounded (.included bound) = some (ix.countAtMost bound)
  keysOf : ∀ id, ix.keysInRange? id = some (ix.keysOf id)

theorem readsRanges_of_representable
    (h : ∀ pair ∈ ix.postings.reverse.toList, pair.2.IsRepresentable) : ix.ReadsRanges := by
  have hself : ∀ key : NormalValue, (compare key key).isLE = true := fun key => by
    have hcompare : compare key key = .eq := Std.ReflCmp.compare_self
    rw [hcompare]
    rfl
  constructor
  case idsWith =>
    intro key
    rw [idsInRange?, ix.postings.range?_within (hself key)]
    rfl
  case idsAtLeast =>
    intro bound
    rw [idsInRange?, ix.postings.range?_startingAt]
    rfl
  case idsAtMost =>
    intro bound
    rw [idsInRange?, ix.postings.range?_endingAt]
    rfl
  case idsBetween =>
    intro lower upper hsorted
    rw [AttributeIndex.idsBetween, hsorted]
    have hle : (compare lower upper).isLE = true := by
      rw [MatchingRule.compare_eq] at hsorted
      cases hcompare : compare lower upper with
      | lt | eq => rfl
      | gt =>
        rw [hcompare] at hsorted
        cases hsorted
    rw [idsInRange?, ix.postings.range?_within hle]
    rfl
  case countAtLeast =>
    intro bound
    rw [countInRange?, ix.postings.range?_startingAt]
    rfl
  case countAtMost =>
    intro bound
    rw [countInRange?, ix.postings.range?_endingAt]
    rfl
  case keysOf => exact fun id => ix.postings.range?_idRange id h

/-! ### Any writes -/

/-- **What an index answers after any writes.** Let an empty index be written to, with values that
the program has. Then every query is answered from the pairs that were inserted and not removed
since, and every query can be asked as ranges, none of which is refused. -/
theorem answers_performAll (hempty : ix.postings = .empty) {ws : List IndexWrite}
    (hvalues : ∀ w ∈ ws, ∀ pair ∈ w.inserted, pair.1.IsRepresentable) :
    (ix.performAll ws).Answers (heldPairs ws) ∧ (ix.performAll ws).ReadsRanges := by
  have hpostings : (ix.performAll ws).postings = ws.foldl IndexWrite.perform .empty := by
    rw [performAll, hempty]
  obtain ⟨hmirrored, hforward⟩ := mem_forward_performAll ws
  rw [← hpostings] at hmirrored hforward
  refine ⟨answers_of_mirrored hmirrored hforward, readsRanges_of_representable ?_⟩
  rintro ⟨id, key⟩ hpair
  obtain ⟨before, w, after, rfl, hinserted, -⟩ := (hforward key id).mp ((hmirrored key id).mp hpair)
  exact hvalues w (by simp) (key, id) hinserted

/-- Both kinds of values, the least integer, the least and the greatest id, and an id that is
removed and comes back with another key. -/
theorem answers_performAll_at_the_limits :
    let ix := system "1.1" "marks"
    let ws := [.insert leastValue leastId, .insertAll [(.text "", greatestId),
      (.integer 5, greatestId), (.text "a", 7)], .removeId 7, IndexWrite.insert (.text "b") 7]
    ix.postings = .empty ∧ (∀ w ∈ ws, ∀ pair ∈ w.inserted, pair.1.IsRepresentable) ∧
      (ix.performAll ws).Answers (heldPairs ws) ∧ (ix.performAll ws).ReadsRanges ∧
      (ix.performAll ws).keysInRange? greatestId = some [.integer 5, .text ""] ∧
      (.text "a", 7) ∉ heldPairs ws ∧ (.text "b", 7) ∈ heldPairs ws := by
  intro ix ws
  have hvalues : ∀ w ∈ ws, ∀ pair ∈ w.inserted, pair.1.IsRepresentable := by decide
  have hempty : ix.postings = .empty := rfl
  obtain ⟨hanswers, hranges⟩ := answers_performAll hempty hvalues
  have hkeys : (ix.performAll ws).keysInRange? greatestId = some [.integer 5, .text ""] := by
    decide +kernel
  refine ⟨hempty, hvalues, hanswers, hranges, hkeys, ?_, ?_⟩
  · rw [← hanswers.holds]
    decide +kernel
  · rw [← hanswers.holds]
    decide +kernel

end AttributeIndex

end Directory
