import Directory.Proofs.SearchScan
import Directory.Proofs.ValueLookup
import Mathlib.Algebra.Order.BigOperators.Group.List
import Mathlib.Algebra.Order.Ring.Nat

/-!
# Estimates

An evaluator carries an estimate of how many entries it accepts. Some leaves count the ids that an
index has for a key, others count pairs of a key and an id, and for a leaf without an index nothing
is known. A conjunction takes the least estimate of its children, a disjunction the sum, and for a
negation nothing is known either.

No estimate falls short. The ids that an index answers yes for are among those that the estimate
has counted (`Condition.mem_counted`), and this bound goes up through the tree
(`matchCount_le_estimate`). Estimates are words of 64 bits: sums end at the greatest word
(`totalEstimate_eq_min`), which stands for an unknown number and is not exceeded by the number of
entries.
-/

namespace Directory

/-! ### Counting in a list -/

theorem countP_or_le {α : Type} (l : List α) (p q : α → Bool) :
    l.countP (fun a => p a || q a) ≤ l.countP p + l.countP q := by
  induction l with
  | nil => simp
  | cons a l ih =>
    simp only [List.countP_cons]
    cases p a <;> cases q a <;> simp <;> omega

/-- The members with one of several properties are not more than those with each of them
together. -/
theorem countP_any_le {α β : Type} (l : List α) (p : β → α → Bool) (bs : List β) :
    l.countP (fun a => bs.any fun b => p b a) ≤ (bs.map fun b => l.countP (p b)).sum := by
  induction bs with
  | nil => simp
  | cons b bs ih =>
    rw [List.map_cons, List.sum_cons]
    exact (countP_or_le l (p b) _).trans (Nat.add_le_add_left ih _)

namespace Store

variable {r : Registry} {s : Store}

/-- Entries whose ids are in a list are not more than the ids. -/
theorem countP_le_length (hs : s.Synced r) {p : EntryId → Bool} {ids : List EntryId}
    (h : ∀ id, p id = true → id ∈ ids) :
    s.entries.values.countP (fun x => p x.id) ≤ ids.length := by
  have hnodup : ((s.entries.values.filter fun x => p x.id).map Entry.id).Nodup := by
    have hasc := (values_ascending hs).filter fun x => p x.id
    refine List.pairwise_map.mpr (hasc.imp fun {a b} hab heq => ?_)
    rw [heq] at hab
    exact not_compare_self_lt b.id hab
  have hsubset : (s.entries.values.filter fun x => p x.id).map Entry.id ⊆ ids := by
    intro id hid
    obtain ⟨x, hx, rfl⟩ := List.mem_map.mp hid
    exact h x.id (List.mem_filter.mp hx).2
  rw [List.countP_eq_length_filter, ← List.length_map (f := Entry.id)]
  exact (List.subperm_of_subset hnodup hsubset).length_le

end Store

/-! ### Leaves -/

namespace Condition

variable {r : Registry} {s : Store} {ix : AttributeIndex} {id : EntryId}

/-- The ids that the estimate counts, some of them as often as they have keys. -/
def counted (c : Condition) (s : Store) (ix : AttributeIndex) : List EntryId :=
  match c with
  | equals _ _ value => (ix.idsWith value).toList
  | bounded .atLeast _ bound => (ix.postings.startingAt bound).map Prod.snd
  | bounded .atMost _ bound => (ix.postings.endingAt bound).map Prod.snd
  | present => (s.presence.idsWith (presenceKey ix)).toList
  | like _ _ => ix.postings.forward.toList.map Prod.snd

theorem length_counted (c : Condition) (s : Store) (ix : AttributeIndex) :
    (c.counted s ix).length = c.estimate s ix := by
  cases c with
  | equals => rfl
  | bounded side => cases side <;> exact List.length_map ..
  | present => rfl
  | like => exact List.length_map ..

/-- An id that the index says yes for has been counted. -/
theorem mem_counted (hs : s.Synced r) (hix : ix ∈ s.indexes) {c : Condition}
    (h : (c.testIndex s ix id).holds = true) : id ∈ c.counted s ix := by
  obtain ⟨key, hmem, haccepts⟩ := (testIndex_holds_iff hs hix c).mp h
  cases c with
  | equals approx rule value =>
    have hkey : key = value := of_decide_eq_true haccepts
    exact mem_idsOf.mpr ⟨key, Postings.mem_within_self.mpr ⟨hmem, hkey⟩⟩
  | bounded side rule bound =>
    cases side with
    | atLeast => exact List.mem_map.mpr ⟨_, Postings.mem_startingAt.mpr ⟨hmem, haccepts⟩, rfl⟩
    | atMost => exact List.mem_map.mpr ⟨_, Postings.mem_endingAt.mpr ⟨hmem, haccepts⟩, rfl⟩
  | present => exact mem_idsWith_presence_iff.mpr h
  | like rule pattern => exact List.mem_map.mpr ⟨_, hmem, rfl⟩

/-- No more is counted than there are pairs in the index. -/
theorem estimate_le_size (hs : s.Synced r) (hix : ix ∈ s.indexes) (c : Condition) :
    c.estimate s ix ≤ ix.size := by
  have hsize : ix.size = (ix.postings.forward.toList.map Prod.snd).length :=
    (List.length_map ..).symm
  cases c with
  | equals approx rule value =>
    rw [hsize]
    refine SortedSet.size_le_length fun id hid => ?_
    obtain ⟨key, hkey⟩ := mem_idsOf.mp hid
    exact List.mem_map.mpr ⟨_, (Postings.mem_within_self.mp hkey).1, rfl⟩
  | bounded side rule bound =>
    cases side with
    | atLeast => exact (List.dropWhile_sublist _).length_le
    | atMost => exact (List.takeWhile_sublist _).length_le
  | present =>
    rw [hsize]
    refine SortedSet.size_le_length fun id hid => ?_
    -- an entry is marked as present when it has a key
    obtain ⟨key, hkey, -⟩ :=
      (testIndex_holds_iff hs hix present).mp (mem_idsWith_presence_iff.mp hid)
    exact List.mem_map.mpr ⟨_, hkey, rfl⟩
  | like rule pattern => exact Nat.le_refl _

end Condition

namespace Evaluator

variable {r : Registry} {s : Store} {e ev : Evaluator} {es : List Evaluator} {f : Filter}
  {id : EntryId}

/-- The number of stored entries that the evaluator accepts. -/
def matchCount (s : Store) (e : Evaluator) : Nat :=
  s.entries.values.countP fun x => e.accepts s x.id

theorem matchCount_le_size (s : Store) (e : Evaluator) : matchCount s e ≤ s.entries.size := by
  have hlength : s.entries.values.length = s.entries.size := List.length_map ..
  exact hlength ▸ List.countP_le_length

/-- The estimate is a word that does not fall short of the number of matches. -/
def Sound (s : Store) (e : Evaluator) : Prop :=
  matchCount s e ≤ e.estimate ∧ e.estimate < UInt64.size

/-- Nothing exceeds the estimate that stands for an unknown number. -/
theorem le_unknownEstimate (hentries : s.entries.size < UInt64.size) (e : Evaluator) :
    matchCount s e ≤ unknownEstimate :=
  Nat.le_sub_one_of_lt ((matchCount_le_size s e).trans_lt hentries)

/-- The estimate of a bound assertion does not fall short. -/
theorem sound_leaf (hs : s.Reachable r) (hentries : s.entries.size < UInt64.size)
    (hpairs : ∀ ix ∈ s.indexes, ix.size < UInt64.size) {a : Assertion} {l : Leaf}
    (hl : Leaf.bind s r a = .ok l) : Sound s (.leaf l) := by
  obtain ⟨t, c, -, -, rfl⟩ := Leaf.bind_eq_bound_iff.mp hl
  cases hindex : (s.usableIndexFor? r t).filter c.compatible with
  | none =>
    have hestimate : (leaf (Leaf.bound s r t c)).estimate = unknownEstimate := by
      rw [estimate, Leaf.bound, hindex]
    rw [Sound, hestimate]
    exact ⟨le_unknownEstimate hentries _, by decide⟩
  | some ix =>
    have hestimate : (leaf (Leaf.bound s r t c)).estimate = c.estimate s ix := by
      rw [estimate, Leaf.bound, hindex]
    obtain ⟨husable, -⟩ := Option.filter_eq_some_iff.mp hindex
    have hix : ix ∈ s.indexes :=
      List.mem_of_find?_eq_some (Option.filter_eq_some_iff.mp husable).1
    have hfound : (Leaf.bound s r t c).index? s = some ix := by
      rw [Leaf.index?, Leaf.bound, hindex]
      exact Store.indexAt?_eq_some hs.synced hix
    have hcount : matchCount s (leaf (Leaf.bound s r t c)) ≤ c.estimate s ix := by
      rw [← Condition.length_counted]
      refine Store.countP_le_length hs.synced fun id hid => ?_
      have hanswer : (Leaf.bound s r t c).answer s id (s.entry? id) = .ok true := accepts_iff.mp hid
      simp only [Leaf.answer, hfound] at hanswer
      exact Condition.mem_counted hs.synced hix (Except.ok.inj hanswer)
    rw [Sound, hestimate]
    exact ⟨hcount, (Condition.estimate_le_size hs.synced hix c).trans_lt (hpairs ix hix)⟩

/-! ### Trees -/

/-- The first evaluator stands somewhere in the second. -/
inductive Part (e : Evaluator) : Evaluator → Prop where
  | self : Part e e
  | and {ev : Evaluator} {es : List Evaluator} : ev ∈ es → Part e ev → Part e (.and es)
  | or {ev : Evaluator} {es : List Evaluator} : ev ∈ es → Part e ev → Part e (.or es)
  | not {ev : Evaluator} : Part e ev → Part e (.not ev)

theorem Part.trans {e' : Evaluator} (h : e'.Part e) (hev : e.Part ev) : e'.Part ev := by
  induction hev with
  | self => exact h
  | and hmem _ ih => exact .and hmem ih
  | or hmem _ ih => exact .or hmem ih
  | not _ ih => exact .not ih

theorem exists_build_of_buildAll {fs : List Filter} (hes : buildAll s r fs = .ok es)
    (he : e ∈ es) : ∃ f ∈ fs, build s r f = .ok e := by
  induction fs generalizing es with
  | nil =>
    cases hes
    exact absurd he List.not_mem_nil
  | cons f fs ih =>
    rw [buildAll] at hes
    cases hf : build s r f with
    | error err =>
      rw [hf] at hes
      cases hes
    | ok e' =>
      rw [hf] at hes
      obtain ⟨es', hes', rfl⟩ := map_eq_ok_iff.mp hes
      rcases List.mem_cons.mp he with rfl | he
      · exact ⟨f, List.mem_cons_self, hf⟩
      · obtain ⟨g, hg, hbuild⟩ := ih hes' he
        exact ⟨g, List.mem_cons_of_mem _ hg, hbuild⟩

/-- The leaves of an evaluator are bound assertions. -/
theorem exists_bind_of_part {l : Leaf} (hev : build s r f = .ok ev) (hl : (leaf l).Part ev) :
    ∃ a, Leaf.bind s r a = .ok l := by
  induction f using Filter.induction generalizing ev with
  | assertion a =>
    obtain ⟨l', hl', rfl⟩ := map_eq_ok_iff.mp hev
    cases hl
    exact ⟨a, hl'⟩
  | and fs ih =>
    obtain ⟨es, hes, rfl⟩ := map_eq_ok_iff.mp hev
    cases hl with
    | and he hpart =>
      obtain ⟨f, hf, hbuild⟩ := exists_build_of_buildAll hes (List.mem_mergeSort.mp he)
      exact ih f hf hbuild hpart
  | or fs ih =>
    obtain ⟨es, hes, rfl⟩ := map_eq_ok_iff.mp hev
    cases hl with
    | or he hpart =>
      obtain ⟨f, hf, hbuild⟩ := exists_build_of_buildAll hes he
      exact ih f hf hbuild hpart
  | not f ih =>
    obtain ⟨e, he, rfl⟩ := map_eq_ok_iff.mp hev
    cases hl with
    | not hpart => exact ih he hpart

theorem accepts_and (h : (Evaluator.and es).accepts s id = true) :
    ∀ e ∈ es, e.accepts s id = true := by
  simp only [accepts_iff] at h ⊢
  have h : answerAll s id (s.entry? id) es = .ok true := h
  induction es with
  | nil => exact fun e he => absurd he List.not_mem_nil
  | cons e es ih =>
    rw [answerAll] at h
    split at h
    · next he => exact List.forall_mem_cons.mpr ⟨he, ih h h⟩
    · next hne => exact absurd h hne

theorem accepts_or (h : (Evaluator.or es).accepts s id = true) :
    ∃ e ∈ es, e.accepts s id = true := by
  simp only [accepts_iff] at h ⊢
  have h : answerAny s id (s.entry? id) es = .ok true := h
  induction es with
  | nil => cases h
  | cons e es ih =>
    rw [answerAny] at h
    split at h
    · obtain ⟨e', he', htrue⟩ := ih h h
      exact ⟨e', List.mem_cons_of_mem _ he', htrue⟩
    · exact ⟨e, List.mem_cons_self, h⟩

theorem le_leastEstimate {n : Nat} (hn : n ≤ unknownEstimate) (h : ∀ e ∈ es, n ≤ e.estimate) :
    n ≤ leastEstimate es := by
  induction es with
  | nil => exact hn
  | cons e es ih =>
    obtain ⟨he, hes⟩ := List.forall_mem_cons.mp h
    exact Nat.le_min.mpr ⟨he, ih hes⟩

theorem leastEstimate_le (es : List Evaluator) : leastEstimate es ≤ unknownEstimate := by
  induction es with
  | nil => exact Nat.le_refl _
  | cons e es ih => exact (Nat.min_le_right _ _).trans ih

/-- The sum of the estimates ends at the greatest word. -/
theorem totalEstimate_eq_min (es : List Evaluator) :
    totalEstimate es = min (es.map estimate).sum unknownEstimate := by
  induction es with
  | nil => rfl
  | cons e es ih =>
    rw [totalEstimate, addEstimates, ih, List.map_cons, List.sum_cons]
    omega

/-- **The estimates of a tree do not fall short** if those of its leaves do not. -/
theorem sound_of_leaves (hentries : s.entries.size < UInt64.size)
    (hleaves : ∀ l, (leaf l).Part e → Sound s (leaf l)) : Sound s e := by
  have hunknown : unknownEstimate < UInt64.size := by decide
  induction e using Evaluator.induction with
  | leaf l => exact hleaves l .self
  | and es ih =>
    have hes : ∀ e ∈ es, Sound s e := fun e he => ih e he fun l hl => hleaves l (.and he hl)
    refine ⟨le_leastEstimate (le_unknownEstimate hentries _) fun e he => ?_,
      (leastEstimate_le es).trans_lt hunknown⟩
    exact (List.countP_mono_left fun x _ h => accepts_and h e he).trans (hes e he).1
  | or es ih =>
    have hes : ∀ e ∈ es, Sound s e := fun e he => ih e he fun l hl => hleaves l (.or he hl)
    have hsum : matchCount s (.or es) ≤ (es.map estimate).sum :=
      calc matchCount s (.or es)
          ≤ s.entries.values.countP (fun x => es.any fun e => e.accepts s x.id) :=
            List.countP_mono_left fun x _ h => List.any_eq_true.mpr (accepts_or h)
        _ ≤ (es.map (matchCount s)).sum := countP_any_le _ _ es
        _ ≤ (es.map estimate).sum := List.sum_le_sum fun e he => (hes e he).1
    have htotal : (Evaluator.or es).estimate = min (es.map estimate).sum unknownEstimate :=
      totalEstimate_eq_min es
    rw [Sound, htotal]
    exact ⟨Nat.le_min.mpr ⟨hsum, le_unknownEstimate hentries _⟩,
      (Nat.min_le_right _ _).trans_lt hunknown⟩
  | not e _ => exact ⟨le_unknownEstimate hentries _, hunknown⟩

/-- **Estimates never fall short.** In a store with fewer than 2^64 entries and pairs in each index,
every part of the evaluator of a filter has an estimate that is at least the number of stored
entries that this part accepts, and a word of 64 bits. The estimate of a disjunction is the sum of
the estimates of its children, or the greatest word if the sum is none. -/
theorem matchCount_le_estimate (hs : s.Reachable r) (hentries : s.entries.size < UInt64.size)
    (hpairs : ∀ ix ∈ s.indexes, ix.size < UInt64.size) (hev : build s r f = .ok ev)
    (he : e.Part ev) :
    matchCount s e ≤ e.estimate ∧ e.estimate < UInt64.size ∧
      ∀ es, e = .or es → e.estimate = min (es.map estimate).sum (UInt64.size - 1) := by
  have hsound : Sound s e := sound_of_leaves hentries fun l hl => by
    obtain ⟨a, ha⟩ := exists_bind_of_part hev (hl.trans he)
    exact sound_leaf hs hentries hpairs ha
  refine ⟨hsound.1, hsound.2, ?_⟩
  rintro es rfl
  exact totalEstimate_eq_min es

/-- A range of keys in which one entry has two, and a key, below a negation. -/
theorem matchCount_le_estimate_range :
    let s := (Store.new "people").performAll .people
      [.addIndex "cn" false, .addEntry (.ofAttributes 1 "" [("cn", ["Zoe", "Dora"])]),
        .addEntry (.named 2 "Alice"), .addEntry (.named 3 "Bob")]
    let f := Filter.not (.or [.assertion (.greaterEq "cn" "carol"),
      .assertion (.equality "cn" "Alice")])
    ∃ ev es, build s .people f = .ok ev ∧ (Evaluator.or es).Part ev ∧
      matchCount s (.or es) = 2 ∧ (Evaluator.or es).estimate = 3 ∧
      (Evaluator.or es).estimate < UInt64.size ∧
      (Evaluator.or es).estimate = min (es.map estimate).sum (UInt64.size - 1) := by
  intro s f
  have hs : s.Reachable .people := (Store.Reachable.new "people").performAll _
  have hrun : ∃ es, buildAll s .people [.assertion (.greaterEq "cn" "carol"),
      .assertion (.equality "cn" "Alice")] = .ok es ∧
        matchCount s (.or es) = 2 ∧ (Evaluator.or es).estimate = 3 :=
    exists_eq_ok_of_decide (by decide +kernel)
  obtain ⟨es, hes, hcount, hestimate⟩ := hrun
  have hev : build s .people f = .ok (.not (.or es)) :=
    map_eq_ok_iff.mpr ⟨_, map_eq_ok_iff.mpr ⟨es, hes, rfl⟩, rfl⟩
  obtain ⟨-, hword, hsum⟩ :=
    matchCount_le_estimate hs (by decide +kernel) (by decide +kernel) hev (.not .self)
  exact ⟨_, es, hev, .not .self, hcount, hestimate, hword, hsum es rfl⟩

end Evaluator

end Directory
