import Directory.Proofs.Planning
import Mathlib.Algebra.GroupWithZero.Nat

/-!
# Plans and the filters they are made for

A filter can be planned, and it can be bound as an evaluator alone. Both go through the filter from
left to right, and fail at the first assertion that cannot be bound (`errorOf?_build`). Otherwise
planning leads to the very same evaluator (`map_evaluator_build`).

The tree of a plan has the shape of the filter. `PlanNode.Describes` says so, and what the numbers
of candidates have to do with each other: the candidates of a conjunction are among those of each
bounded part, and the candidates of a disjunction are those of all parts together
(`describes_root`).
-/

namespace Directory

/-! ### The first error -/

namespace Filter

mutual

/-- The assertions of the filter, from left to right. -/
def assertions : Filter → List Assertion
  | assertion a => [a]
  | and fs => assertionsAll fs
  | or fs => assertionsAll fs
  | not f => f.assertions
  termination_by structural f => f

/-- The assertions of filters one after the other. -/
def assertionsAll : List Filter → List Assertion
  | [] => []
  | f :: fs => f.assertions ++ assertionsAll fs
  termination_by structural fs => fs

end

end Filter

namespace Evaluator

variable {s : Store} {r : Registry}

theorem errorOf?_buildAll_cons (f : Filter) (fs : List Filter) :
    errorOf? (buildAll s r (f :: fs)) =
      (errorOf? (build s r f)).or (errorOf? (buildAll s r fs)) := by
  rw [buildAll]
  cases build s r f with
  | error err => rfl
  | ok e => exact errorOf?_map _ _

mutual

/-- **The error is that of the first assertion that cannot be bound.** -/
theorem errorOf?_build : ∀ f : Filter,
    errorOf? (build s r f) = f.assertions.findSome? fun a => errorOf? (Leaf.bind s r a)
  | .assertion a => by rw [build, errorOf?_map, Filter.assertions, List.findSome?_singleton]
  | .and fs => by rw [build, errorOf?_map, Filter.assertions, errorOf?_buildAll fs]
  | .or fs => by rw [build, errorOf?_map, Filter.assertions, errorOf?_buildAll fs]
  | .not f => by rw [build, errorOf?_map, Filter.assertions, errorOf?_build f]
  termination_by structural f => f

theorem errorOf?_buildAll : ∀ fs : List Filter,
    errorOf? (buildAll s r fs) =
      (Filter.assertionsAll fs).findSome? fun a => errorOf? (Leaf.bind s r a)
  | [] => rfl
  | f :: fs => by
    rw [errorOf?_buildAll_cons, errorOf?_build f, errorOf?_buildAll fs, Filter.assertionsAll,
      List.findSome?_append]
  termination_by structural fs => fs

end

end Evaluator

namespace Plan

variable {s : Store} {r : Registry}

mutual

/-- **Planning leads to the evaluator of the filter.** -/
theorem map_evaluator_build : ∀ f : Filter, (build s r f).map evaluator = Evaluator.build s r f
  | .assertion a => by
    rw [build, Evaluator.build]
    cases Leaf.bind s r a <;> rfl
  | .and fs => by
    rw [build, Evaluator.build, ← map_evaluator_buildAll fs]
    cases buildAll s r fs <;> rfl
  | .or fs => by
    rw [build, Evaluator.build, ← map_evaluator_buildAll fs]
    cases buildAll s r fs <;> rfl
  | .not f => by
    rw [build, Evaluator.build, ← map_evaluator_build f]
    cases build s r f <;> rfl
  termination_by structural f => f

theorem map_evaluator_buildAll : ∀ fs : List Filter,
    (buildAll s r fs).map (List.map evaluator) = Evaluator.buildAll s r fs
  | [] => rfl
  | f :: fs => by
    rw [buildAll, Evaluator.buildAll, ← map_evaluator_build f, ← map_evaluator_buildAll fs]
    cases build s r f with
    | error err => rfl
    | ok p => cases buildAll s r fs <;> rfl
  termination_by structural fs => fs

end

end Plan

/-! ### Numbers of candidates -/

/-- What the number of candidates of a conjunction has to do with those of its parts, where there is
no number if any entry can match. -/
structure CommonCount (count : Option Nat) (parts : List (Option Nat)) : Prop where
  isSome_iff : count.isSome = true ↔ ∃ n ∈ parts, n.isSome = true
  le_part : ∀ m n, count = some m → some n ∈ parts → m ≤ n

/-- What the number of candidates of a disjunction has to do with those of its parts. -/
structure JointCount (count : Option Nat) (parts : List (Option Nat)) : Prop where
  isSome_iff : count.isSome = true ↔ ∀ n ∈ parts, n.isSome = true
  part_le : ∀ m n, count = some m → some n ∈ parts → n ≤ m
  le_sum : ∀ m, count = some m → m ≤ (parts.map fun n => n.getD 0).sum

namespace Candidates

variable {c : Candidates} {cs : List Candidates} {m n : Nat}

theorem count?_eq_some_iff : c.count? = some n ↔ ∃ ids, c = bounded ids ∧ ids.size = n := by
  cases c <;> simp [count?, ids?]

theorem isSome_count? (c : Candidates) : c.count?.isSome = c.ids?.isSome := by
  cases c <;> rfl

theorem isSome_count?_interAll :
    (interAll cs).count?.isSome = true ↔ ∃ c ∈ cs, c.count?.isSome = true := by
  have hsets : ∀ ids, ids ∈ (cs.filterMap ids?).mergeSort (fun a b => decide (a.size ≤ b.size)) ↔
      ∃ c ∈ cs, c.ids? = some ids := fun ids => by
    rw [List.mem_mergeSort, List.mem_filterMap]
  simp only [isSome_count?, Option.isSome_iff_exists]
  rw [interAll]
  cases hsorted : (cs.filterMap ids?).mergeSort fun a b => decide (a.size ≤ b.size) with
  | nil =>
    constructor
    · rintro ⟨ids, hids⟩
      cases hids
    · rintro ⟨c, hc, ids, hids⟩
      have hmem := (hsets ids).mpr ⟨c, hc, hids⟩
      rw [hsorted] at hmem
      exact absurd hmem List.not_mem_nil
  | cons seed rest =>
    obtain ⟨c, hc, hseed⟩ := (hsets seed).mp (hsorted ▸ List.mem_cons_self)
    exact ⟨fun _ => ⟨c, hc, seed, hseed⟩, fun _ => ⟨_, rfl⟩⟩

/-- Candidates of a conjunction are candidates of each part. -/
theorem commonCount_interAll (cs : List Candidates) :
    CommonCount (interAll cs).count? (cs.map count?) where
  isSome_iff := by
    rw [isSome_count?_interAll]
    simp only [List.mem_map, exists_exists_and_eq_and]
  le_part m n hm hn := by
    obtain ⟨c, hc, hn⟩ := List.mem_map.mp hn
    obtain ⟨ids, hids, rfl⟩ := count?_eq_some_iff.mp hm
    obtain ⟨part, rfl, rfl⟩ := count?_eq_some_iff.mp hn
    refine SortedSet.size_le_size fun id hid => ?_
    have hadmits : (interAll cs).Admits id := by
      rw [hids]
      exact admits_bounded.mpr hid
    exact admits_bounded.mp (admits_interAll.mp hadmits _ hc)

theorem isSome_count?_unionAll :
    (unionAll cs).count?.isSome = true ↔ ∀ c ∈ cs, c.count?.isSome = true := by
  induction cs with
  | nil => simp [unionAll, count?, ids?]
  | cons c cs ih =>
    rw [List.forall_mem_cons, ← ih, unionAll]
    cases c <;> cases unionAll cs <;> simp [union, count?, ids?]

theorem count?_unionAll_le (h : (unionAll cs).count? = some m) :
    m ≤ ((cs.map count?).map fun n => n.getD 0).sum := by
  induction cs generalizing m with
  | nil =>
    cases h
    exact Nat.le_refl 0
  | cons c cs ih =>
    rw [unionAll] at h
    cases c with
    | unbounded => cases h
    | bounded ids =>
      cases hrest : unionAll cs with
      | unbounded =>
        rw [hrest] at h
        cases h
      | bounded rest =>
        have hsum : rest.size ≤ ((cs.map count?).map fun n => n.getD 0).sum :=
          ih (count?_eq_some_iff.mpr ⟨rest, hrest, rfl⟩)
        have hsize : (ids.union rest).size ≤ ids.size + rest.size :=
          SortedSet.size_union_le ids rest
        rw [hrest] at h
        cases h
        exact hsize.trans (Nat.add_le_add_left hsum ids.size)

/-- Candidates of a part of a disjunction are candidates of the whole, and it has no others. -/
theorem jointCount_unionAll (cs : List Candidates) :
    JointCount (unionAll cs).count? (cs.map count?) where
  isSome_iff := by rw [isSome_count?_unionAll, List.forall_mem_map]
  part_le m n hm hn := by
    obtain ⟨c, hc, hn⟩ := List.mem_map.mp hn
    obtain ⟨ids, hids, rfl⟩ := count?_eq_some_iff.mp hm
    obtain ⟨part, rfl, rfl⟩ := count?_eq_some_iff.mp hn
    refine SortedSet.size_le_size fun id hid => ?_
    have hadmits : (unionAll cs).Admits id := admits_unionAll.mpr ⟨_, hc, admits_bounded.mpr hid⟩
    rw [hids] at hadmits
    exact admits_bounded.mp hadmits
  le_sum _ := count?_unionAll_le

end Candidates

/-- An index is named exactly if the candidates are known. -/
theorem Leaf.isSome_index_candidates (l : Leaf) (s : Store) :
    (l.candidates s).2.isSome = (l.candidates s).1.count?.isSome := by
  rw [candidates]
  cases l.index? s with
  | none => rfl
  | some ix =>
    dsimp only
    cases l.condition with
    | equals => rfl
    | bounded side => cases side <;> rfl
    | present => rfl
    | like rule pattern =>
      dsimp only
      cases pattern.initial <;> rfl

/-! ### The tree of a plan -/

namespace PlanNode

/-- The number of candidates, unless any entry can match. -/
def count? : PlanNode → Option Nat
  | node _ _ count _ => count

/-- The tree has the shape of the filter, with numbers of candidates that go together. -/
inductive Describes : PlanNode → Filter → Prop where
  | assertion {a : Assertion} {index : Option String} {count : Option Nat} :
      index.isSome = count.isSome →
        Describes (node (String.ofList a.toText) index count []) (.assertion a)
  | and {fs : List Filter} {parts : List PlanNode} {count : Option Nat} :
      List.Forall₂ Describes parts fs → CommonCount count (parts.map count?) →
        Describes (node "and" none count parts) (.and fs)
  | or {fs : List Filter} {parts : List PlanNode} {count : Option Nat} :
      List.Forall₂ Describes parts fs → JointCount count (parts.map count?) →
        Describes (node "or" none count parts) (.or fs)
  | not {f : Filter} {part : PlanNode} :
      Describes part f → Describes (node "not" none none [part]) (.not f)

end PlanNode

namespace Plan

variable {s : Store} {r : Registry} {f : Filter} {fs : List Filter} {p : Plan} {ps : List Plan}

/-- The root has the number of candidates of the plan. -/
theorem count?_root (hp : build s r f = .ok p) : p.root.count? = p.candidates.count? := by
  cases f with
  | assertion a =>
    obtain ⟨l, -, rfl⟩ := build_assertion_iff.mp hp
    rfl
  | and fs =>
    obtain ⟨ps, -, rfl⟩ := build_and_iff.mp hp
    rfl
  | or fs =>
    obtain ⟨ps, -, rfl⟩ := build_or_iff.mp hp
    rfl
  | not f =>
    obtain ⟨q, -, rfl⟩ := build_not_iff.mp hp
    rfl

theorem map_count?_root (hps : List.Forall₂ (fun f p => build s r f = .ok p) fs ps) :
    (ps.map root).map PlanNode.count? = (ps.map candidates).map Candidates.count? := by
  rw [List.map_map, List.map_map]
  refine List.map_congr_left fun p hp => ?_
  obtain ⟨f, -, hbuild⟩ := exists_of_mem_right hps hp
  exact count?_root hbuild

/-- **The tree of a plan describes its filter.** -/
theorem describes_root (hp : build s r f = .ok p) : p.root.Describes f := by
  have hparts : ∀ {fs : List Filter} {ps : List Plan},
      (∀ f ∈ fs, ∀ {p}, build s r f = .ok p → p.root.Describes f) →
        List.Forall₂ (fun f p => build s r f = .ok p) fs ps →
          List.Forall₂ PlanNode.Describes (ps.map root) fs := fun ih hps => by
    induction hps with
    | nil => exact .nil
    | cons hp _ ihps =>
      obtain ⟨ihf, ihfs⟩ := List.forall_mem_cons.mp ih
      exact .cons (ihf hp) (ihps ihfs)
  induction f using Filter.induction generalizing p with
  | assertion a =>
    obtain ⟨l, -, rfl⟩ := build_assertion_iff.mp hp
    exact .assertion (l.isSome_index_candidates s)
  | and fs ih =>
    obtain ⟨ps, hps, rfl⟩ := build_and_iff.mp hp
    have hcount := Candidates.commonCount_interAll (ps.map candidates)
    rw [← map_count?_root hps] at hcount
    exact .and (hparts ih hps) hcount
  | or fs ih =>
    obtain ⟨ps, hps, rfl⟩ := build_or_iff.mp hp
    have hcount := Candidates.jointCount_unionAll (ps.map candidates)
    rw [← map_count?_root hps] at hcount
    exact .or (hparts ih hps) hcount
  | not f ih =>
    obtain ⟨q, hq, rfl⟩ := build_not_iff.mp hp
    exact .not (ih hq)

/-- **Planning a filter** succeeds when binding it as an evaluator does, with the same evaluator,
and that is when all of its assertions can be bound. Otherwise both have the error of the first
assertion from the left that cannot. The tree of a plan describes the filter, and its root has the
number of candidates of the plan. -/
theorem build_faithful (s : Store) (r : Registry) (f : Filter) :
    (build s r f).map evaluator = Evaluator.build s r f ∧
      ((∃ p, build s r f = .ok p) ↔ ∃ e, Evaluator.build s r f = .ok e) ∧
      ((∃ e, Evaluator.build s r f = .ok e) ↔
        ∀ a ∈ f.assertions, ∃ l, Leaf.bind s r a = .ok l) ∧
      (∀ err, build s r f = .error err ↔ Evaluator.build s r f = .error err) ∧
      (∀ err, Evaluator.build s r f = .error err ↔
        ∃ before a after, f.assertions = before ++ a :: after ∧
          (∀ b ∈ before, ∃ l, Leaf.bind s r b = .ok l) ∧ Leaf.bind s r a = .error err) ∧
      ∀ p, build s r f = .ok p → p.root.Describes f ∧ p.root.count? = p.candidates.count? := by
  have hmap : (build s r f).map evaluator = Evaluator.build s r f := map_evaluator_build f
  have herror : errorOf? (build s r f) = errorOf? (Evaluator.build s r f) := by
    rw [← hmap, errorOf?_map]
  refine ⟨hmap, ?_, ?_, fun err => ?_, fun err => ?_, fun p hp =>
    ⟨describes_root hp, count?_root hp⟩⟩
  · rw [← errorOf?_eq_none_iff, herror, errorOf?_eq_none_iff]
  · rw [← errorOf?_eq_none_iff, Evaluator.errorOf?_build, List.findSome?_eq_none_iff]
    simp only [errorOf?_eq_none_iff]
  · rw [← errorOf?_eq_some_iff, herror, errorOf?_eq_some_iff]
  · rw [← errorOf?_eq_some_iff, Evaluator.errorOf?_build, List.findSome?_eq_some_iff]
    simp only [errorOf?_eq_none_iff, errorOf?_eq_some_iff, and_comm]

end Plan

end Directory
