import Directory.Proofs.Checks
import Directory.Proofs.Evaluation
import Directory.Proofs.Sorted
import Directory.Search.Plan
import Mathlib.Data.List.Forall2

/-!
# What a plan leaves out

A plan looks only at its candidates. `Candidates.Admits` says that an entry is among them: of all
the entries that a set bounds, or any entry where nothing bounds them. Conjunction and disjunction
of candidates are conjunction and disjunction of this (`admits_interAll`, `admits_unionAll`), with
the smallest set first, the early end and the collapse to "any entry" taken into account.

Hence a plan leaves out no entry for which its evaluator holds, as long as this is so for its single
assertions (`Plan.admits_of_holds`). The evaluator itself states what the filter states, in whatever
order it keeps the parts of a conjunction (`Plan.holds_evaluator_iff`).
-/

namespace Directory

/-! ### Induction on filters -/

/-- What holds of a filter as soon as it holds of its parts holds of all filters. -/
theorem Filter.induction {motive : Filter → Prop} (assertion : ∀ a, motive (.assertion a))
    (and : ∀ fs, (∀ f ∈ fs, motive f) → motive (.and fs))
    (or : ∀ fs, (∀ f ∈ fs, motive f) → motive (.or fs))
    (not : ∀ f, motive f → motive (.not f)) : ∀ f, motive f
  | .assertion a => assertion a
  | .and fs => and fs fun f _ => Filter.induction assertion and or not f
  | .or fs => or fs fun f _ => Filter.induction assertion and or not f
  | .not f => not f (Filter.induction assertion and or not f)

/-- The first filter stands somewhere in the second. -/
inductive Filter.Part (g : Filter) : Filter → Prop where
  | self : Part g g
  | and {f : Filter} {fs : List Filter} : f ∈ fs → Part g f → Part g (.and fs)
  | or {f : Filter} {fs : List Filter} : f ∈ fs → Part g f → Part g (.or fs)
  | not {f : Filter} : Part g f → Part g (.not f)

/-! ### The statement of a filter -/

namespace Filter

mutual

/-- The statement of the filter, where `P` is what its assertions state. -/
def Holds (P : Assertion → Prop) : Filter → Prop
  | assertion a => P a
  | and fs => HoldsAll P fs
  | or fs => HoldsAny P fs
  | not f => ¬ Holds P f
  termination_by structural f => f

/-- Every filter holds. -/
def HoldsAll (P : Assertion → Prop) : List Filter → Prop
  | [] => True
  | f :: fs => Holds P f ∧ HoldsAll P fs
  termination_by structural fs => fs

/-- Some filter holds. -/
def HoldsAny (P : Assertion → Prop) : List Filter → Prop
  | [] => False
  | f :: fs => Holds P f ∨ HoldsAny P fs
  termination_by structural fs => fs

end

variable {P Q : Assertion → Prop} {fs : List Filter}

@[simp] theorem holds_assertion {a : Assertion} : Holds P (assertion a) ↔ P a := Iff.rfl

@[simp] theorem holds_and : Holds P (and fs) ↔ ∀ f ∈ fs, Holds P f := by
  rw [Holds]
  induction fs with
  | nil => simp [HoldsAll]
  | cons f fs ih => rw [HoldsAll, ih, List.forall_mem_cons]

@[simp] theorem holds_or : Holds P (or fs) ↔ ∃ f ∈ fs, Holds P f := by
  rw [Holds]
  induction fs with
  | nil => simp [HoldsAny]
  | cons f fs ih => rw [HoldsAny, ih, List.exists_mem_cons_iff]

@[simp] theorem holds_not {f : Filter} : Holds P (not f) ↔ ¬ Holds P f := Iff.rfl

/-- Assertions that state the same make filters that state the same. -/
theorem holds_congr (h : ∀ a, P a ↔ Q a) (f : Filter) : f.Holds P ↔ f.Holds Q := by
  have hPQ : P = Q := funext fun a => propext (h a)
  rw [hPQ]

/-- It is enough that the assertions of the filter state the same. -/
theorem holds_congr_of_part {f : Filter} (h : ∀ a, Part (assertion a) f → (P a ↔ Q a)) :
    f.Holds P ↔ f.Holds Q := by
  induction f using Filter.induction with
  | assertion a => exact h a .self
  | and fs ih =>
    rw [holds_and, holds_and]
    exact forall₂_congr fun f hf => ih f hf fun a ha => h a (.and hf ha)
  | or fs ih =>
    rw [holds_or, holds_or]
    exact exists_congr fun f => and_congr_right fun hf => ih f hf fun a ha => h a (.or hf ha)
  | not f ih =>
    rw [holds_not, holds_not, ih fun a ha => h a (.not ha)]

end Filter

/-! ### Candidates -/

namespace Candidates

variable {id : EntryId}

/-- The entry can match. -/
def Admits (c : Candidates) (id : EntryId) : Prop := ∀ ids, c = bounded ids → id ∈ ids

@[simp] theorem admits_unbounded (id : EntryId) : unbounded.Admits id := fun _ h => nomatch h

@[simp] theorem admits_bounded {ids : SortedSet EntryId} : (bounded ids).Admits id ↔ id ∈ ids :=
  ⟨fun h => h ids rfl, fun h _ hids => bounded.inj hids ▸ h⟩

theorem mem_retainAll {seed : SortedSet EntryId} {ss : List (SortedSet EntryId)} :
    id ∈ retainAll seed ss ↔ id ∈ seed ∧ ∀ s ∈ ss, id ∈ s := by
  induction ss generalizing seed with
  | nil => simp [retainAll]
  | cons s ss ih =>
    rw [retainAll]
    by_cases hempty : seed.isEmpty = true
    · -- nothing is left, and nothing would be
      have hnone := SortedSet.isEmpty_iff.mp hempty id
      simp [hempty, hnone]
    · rw [if_neg hempty, ih, SortedSet.mem_inter, List.forall_mem_cons, and_assoc]

theorem admits_iff_ids? {c : Candidates} : c.Admits id ↔ ∀ ids, c.ids? = some ids → id ∈ ids := by
  cases c <;> simp [ids?]

theorem admits_interAll {cs : List Candidates} :
    (interAll cs).Admits id ↔ ∀ c ∈ cs, c.Admits id := by
  have hsets : (∀ c ∈ cs, c.Admits id) ↔
      ∀ s ∈ (cs.filterMap ids?).mergeSort (fun a b => decide (a.size ≤ b.size)), id ∈ s := by
    simp only [List.mem_mergeSort, List.mem_filterMap, admits_iff_ids?]
    constructor
    · rintro h s ⟨c, hc, hs⟩
      exact h c hc s hs
    · intro h c hc s hs
      exact h s ⟨c, hc, hs⟩
  rw [hsets, interAll]
  cases (cs.filterMap ids?).mergeSort fun a b => decide (a.size ≤ b.size) with
  | nil => simp
  | cons seed rest => rw [admits_bounded, mem_retainAll, List.forall_mem_cons]

theorem admits_union {a b : Candidates} : (a.union b).Admits id ↔ a.Admits id ∨ b.Admits id := by
  cases a <;> cases b <;> simp [union]

theorem admits_unionAll {cs : List Candidates} :
    (unionAll cs).Admits id ↔ ∃ c ∈ cs, c.Admits id := by
  induction cs with
  | nil => simp [unionAll]
  | cons c cs ih => rw [unionAll, admits_union, ih, List.exists_mem_cons_iff]

end Candidates

/-! ### Plans of filters -/

@[simp] theorem Evaluator.holds_conjunction {P : Leaf → Prop} {es : List Evaluator} :
    (Evaluator.conjunction es).Holds P ↔ ∀ e ∈ es, e.Holds P := by
  rw [Evaluator.conjunction, Evaluator.holds_and]
  simp only [List.mem_mergeSort]

namespace Plan

variable {s : Store} {r : Registry} {f g : Filter} {fs : List Filter} {p : Plan} {ps : List Plan}
  {P : Leaf → Prop} {id : EntryId}

theorem buildAll_eq_ok_iff :
    buildAll s r fs = .ok ps ↔ List.Forall₂ (fun f p => build s r f = .ok p) fs ps := by
  induction fs generalizing ps with
  | nil =>
    rw [buildAll, List.forall₂_nil_left_iff]
    exact ⟨fun h => (Except.ok.inj h).symm, fun h => h ▸ rfl⟩
  | cons f fs ih =>
    rw [buildAll, List.forall₂_cons_left_iff]
    cases hf : build s r f with
    | error err => simp
    | ok p =>
      simp only [map_eq_ok_iff, ih, Except.ok.injEq]
      constructor
      · rintro ⟨ps', hps, rfl⟩
        exact ⟨p, ps', rfl, hps, rfl⟩
      · rintro ⟨_, ps', rfl, hps, rfl⟩
        exact ⟨ps', hps, rfl⟩

theorem build_assertion_iff {a : Assertion} :
    build s r (.assertion a) = .ok p ↔ ∃ l, Leaf.bind s r a = .ok l ∧ ofLeaf s a l = p :=
  map_eq_ok_iff

theorem build_and_iff : build s r (.and fs) = .ok p ↔
    ∃ ps, List.Forall₂ (fun f p => build s r f = .ok p) fs ps ∧ conjunction ps = p := by
  rw [build, map_eq_ok_iff]
  simp only [buildAll_eq_ok_iff]

theorem build_or_iff : build s r (.or fs) = .ok p ↔
    ∃ ps, List.Forall₂ (fun f p => build s r f = .ok p) fs ps ∧ disjunction ps = p := by
  rw [build, map_eq_ok_iff]
  simp only [buildAll_eq_ok_iff]

theorem build_not_iff :
    build s r (.not f) = .ok p ↔ ∃ q, build s r f = .ok q ∧ negation q = p :=
  map_eq_ok_iff

/-- The parts of a filter that can be planned can be planned. -/
theorem exists_build_of_part (hg : g.Part f) (hp : build s r f = .ok p) :
    ∃ q, build s r g = .ok q := by
  induction hg generalizing p with
  | self => exact ⟨p, hp⟩
  | and hmem _ ih =>
    obtain ⟨ps, hps, -⟩ := build_and_iff.mp hp
    obtain ⟨q, -, hq⟩ := exists_of_mem_left hps hmem
    exact ih hq
  | or hmem _ ih =>
    obtain ⟨ps, hps, -⟩ := build_or_iff.mp hp
    obtain ⟨q, -, hq⟩ := exists_of_mem_left hps hmem
    exact ih hq
  | not _ ih =>
    obtain ⟨q, hq, -⟩ := build_not_iff.mp hp
    exact ih hq

/-- **A plan admits every entry for which its evaluator holds**, if the plans of single assertions
do. -/
theorem admits_of_holds (hleaf : ∀ l, P l → (l.candidates s).1.Admits id)
    (hp : build s r f = .ok p) (h : p.evaluator.Holds P) : p.candidates.Admits id := by
  induction f using Filter.induction generalizing p with
  | assertion a =>
    obtain ⟨l, -, rfl⟩ := build_assertion_iff.mp hp
    exact hleaf l h
  | and fs ih =>
    obtain ⟨ps, hps, rfl⟩ := build_and_iff.mp hp
    have hall : ∀ p ∈ ps, p.evaluator.Holds P := by
      have h : (Evaluator.conjunction (ps.map evaluator)).Holds P := h
      rw [Evaluator.holds_conjunction, List.forall_mem_map] at h
      exact h
    show (Candidates.interAll (ps.map candidates)).Admits id
    rw [Candidates.admits_interAll, List.forall_mem_map]
    intro q hq
    obtain ⟨f, hf, hbuild⟩ := exists_of_mem_right hps hq
    exact ih f hf hbuild (hall q hq)
  | or fs ih =>
    obtain ⟨ps, hps, rfl⟩ := build_or_iff.mp hp
    have hany : ∃ p ∈ ps, p.evaluator.Holds P := by
      have h : (Evaluator.or (ps.map evaluator)).Holds P := h
      simpa only [Evaluator.holds_or, List.mem_map, exists_exists_and_eq_and] using h
    show (Candidates.unionAll (ps.map candidates)).Admits id
    rw [Candidates.admits_unionAll]
    obtain ⟨q, hq, hholds⟩ := hany
    obtain ⟨f, hf, hbuild⟩ := exists_of_mem_right hps hq
    exact ⟨q.candidates, List.mem_map_of_mem hq, ih f hf hbuild hholds⟩
  | not f _ =>
    -- nothing is known of the entries that do not match, so that all are candidates
    obtain ⟨q, -, rfl⟩ := build_not_iff.mp hp
    exact Candidates.admits_unbounded id

/-- The evaluator of a plan states what the filter states. -/
theorem holds_evaluator_iff (hp : build s r f = .ok p) :
    p.evaluator.Holds P ↔ f.Holds fun a => ∃ l, Leaf.bind s r a = .ok l ∧ P l := by
  induction f using Filter.induction generalizing p with
  | assertion a =>
    obtain ⟨l, hl, rfl⟩ := build_assertion_iff.mp hp
    rw [Filter.holds_assertion, hl]
    simp [ofLeaf]
  | and fs ih =>
    obtain ⟨ps, hps, rfl⟩ := build_and_iff.mp hp
    show (Evaluator.conjunction (ps.map evaluator)).Holds P ↔ _
    rw [Evaluator.holds_conjunction, List.forall_mem_map, Filter.holds_and]
    constructor
    · intro h f hf
      obtain ⟨q, hq, hbuild⟩ := exists_of_mem_left hps hf
      exact (ih f hf hbuild).mp (h q hq)
    · intro h q hq
      obtain ⟨f, hf, hbuild⟩ := exists_of_mem_right hps hq
      exact (ih f hf hbuild).mpr (h f hf)
  | or fs ih =>
    obtain ⟨ps, hps, rfl⟩ := build_or_iff.mp hp
    show (Evaluator.or (ps.map evaluator)).Holds P ↔ _
    simp only [Evaluator.holds_or, List.mem_map, exists_exists_and_eq_and, Filter.holds_or]
    constructor
    · rintro ⟨q, hq, h⟩
      obtain ⟨f, hf, hbuild⟩ := exists_of_mem_right hps hq
      exact ⟨f, hf, (ih f hf hbuild).mp h⟩
    · rintro ⟨f, hf, h⟩
      obtain ⟨q, hq, hbuild⟩ := exists_of_mem_left hps hf
      exact ⟨q, hq, (ih f hf hbuild).mpr h⟩
  | not f ih =>
    obtain ⟨q, hq, rfl⟩ := build_not_iff.mp hp
    show (Evaluator.not q.evaluator).Holds P ↔ _
    rw [Evaluator.holds_not, Filter.holds_not, ih hq]

end Plan

end Directory
