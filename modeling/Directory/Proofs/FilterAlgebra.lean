import Directory.Proofs.SearchScan
import Mathlib.Logic.Relation

/-!
# The algebra of filters

What a search finds is made from what searches for the parts of its filter find: a conjunction finds
the ids that all its parts find, a disjunction those that one of its parts finds, and a negation the
ids of the store that its part does not find (`finds_homomorphism`). The searches have candidates of
their own, some bounded and some not, and the evaluators of a conjunction are sorted anew, but all
this does not show.

Hence filters that follow from each other by the laws of Boolean algebra find the same.
`Filter.Rewrite` is one application of such a law, anywhere in a filter.
-/

namespace Directory

variable {r : Registry} {s : Store} {f g : Filter} {fs : List Filter} {id : EntryId}
  {found found' : List EntryId}

/-! ### Rewriting filters -/

/-- The two ways to join filters. -/
inductive Connective where
  | all
  | any

namespace Connective

/-- The conjunction or the disjunction of the filters. -/
def join : Connective → List Filter → Filter
  | all => .and
  | any => .or

/-- The way to join negations. -/
def dual : Connective → Connective
  | all => any
  | any => all

/-- All members of the list have the property, or one of them has it. -/
def Holds {α : Type} (p : α → Prop) (xs : List α) : Connective → Prop
  | all => ∀ x ∈ xs, p x
  | any => ∃ x ∈ xs, p x

theorem holds_congr_forall₂ {α β : Type} {p : α → Prop} {q : β → Prop} {xs : List α}
    {ys : List β} (h : List.Forall₂ (fun x y => p x ↔ q y) xs ys) (k : Connective) :
    k.Holds p xs ↔ k.Holds q ys := by
  induction h with
  | nil => cases k <;> simp [Holds]
  | cons hxy _ ih => cases k <;> simp_all [Holds]

theorem holds_join {P : Assertion → Prop} (k : Connective) :
    (k.join fs).Holds P ↔ k.Holds (Filter.Holds P) fs := by
  cases k
  · exact Filter.holds_and
  · exact Filter.holds_or

end Connective

/-- One application of a law of Boolean algebra in a filter. -/
inductive Filter.Rewrite : Filter → Filter → Prop where
  | permute (k : Connective) {fs gs : List Filter} :
      fs.Perm gs → Rewrite (k.join fs) (k.join gs)
  | repeated (k : Connective) {f : Filter} {fs : List Filter} :
      f ∈ fs → Rewrite (k.join (f :: fs)) (k.join fs)
  | regroup (k : Connective) (fs gs : List Filter) :
      Rewrite (k.join (k.join fs :: gs)) (k.join (fs ++ gs))
  | single (k : Connective) (f : Filter) : Rewrite (k.join [f]) f
  | notNot (f : Filter) : Rewrite (.not (.not f)) f
  | deMorgan (k : Connective) (fs : List Filter) :
      Rewrite (.not (k.join fs)) (k.dual.join (fs.map .not))
  | part (k : Connective) {f g : Filter} (fs : List Filter) :
      Rewrite f g → Rewrite (k.join (f :: fs)) (k.join (g :: fs))
  | negated {f g : Filter} : Rewrite f g → Rewrite (.not f) (.not g)

/-- Rewriting does not change what a filter states. -/
theorem Filter.Rewrite.holds_iff (h : Rewrite f g) (P : Assertion → Prop) :
    f.Holds P ↔ g.Holds P := by
  induction h with
  | permute k hperm =>
    rw [k.holds_join, k.holds_join]
    cases k <;> simp only [Connective.Holds, hperm.mem_iff]
  | repeated k hmem =>
    rw [k.holds_join, k.holds_join]
    cases k with
    | all =>
      simp only [Connective.Holds, List.forall_mem_cons]
      exact ⟨fun h => h.2, fun h => ⟨h _ hmem, h⟩⟩
    | any =>
      simp only [Connective.Holds, List.exists_mem_cons_iff]
      exact ⟨fun h => h.elim (fun h => ⟨_, hmem, h⟩) id, .inr⟩
  | regroup k fs gs =>
    rw [k.holds_join, k.holds_join]
    cases k with
    | all =>
      simp only [Connective.Holds, List.forall_mem_cons, List.forall_mem_append,
        Connective.holds_join]
    | any =>
      simp only [Connective.Holds, List.exists_mem_cons_iff, List.mem_append, or_and_right,
        exists_or, Connective.holds_join]
  | single k f =>
    rw [k.holds_join]
    cases k <;> simp [Connective.Holds]
  | notNot f => rw [holds_not, holds_not, not_not]
  | deMorgan k fs =>
    rw [holds_not, k.holds_join, k.dual.holds_join]
    cases k <;> simp [Connective.Holds, Connective.dual]
  | part k fs _ ih =>
    rw [k.holds_join, k.holds_join]
    cases k <;> simp [Connective.Holds, ih]
  | negated _ ih => rw [holds_not, holds_not, ih]

/-- Filters that follow from each other by the laws state the same. -/
theorem Filter.holds_iff_of_eqvGen (h : Relation.EqvGen Rewrite f g) (P : Assertion → Prop) :
    f.Holds P ↔ g.Holds P := by
  induction h with
  | rel f g h => exact h.holds_iff P
  | refl f => exact Iff.rfl
  | symm f g _ ih => exact ih.symm
  | trans f g h _ _ ih ih' => exact ih.trans ih'

/-! ### The ids that a search finds -/

/-- The ids of the stored entries, ascending. -/
def Store.ids (s : Store) : List EntryId := s.entries.toList.map Prod.fst

theorem Store.mem_ids : id ∈ s.ids ↔ ∃ e, s.entry? id = some e := by
  rw [ids, List.mem_map]
  constructor
  · rintro ⟨⟨_, e⟩, hb, rfl⟩
    exact ⟨e, entry?_eq_some_iff.mpr hb⟩
  · rintro ⟨e, he⟩
    exact ⟨(id, e), entry?_eq_some_iff.mp he, rfl⟩

theorem Store.ids_ascending (s : Store) : s.ids.Pairwise fun a b => compare a b = .lt := by
  rw [ids, List.pairwise_map]
  exact s.entries.ascending

namespace Filter

/-- A search for the filter without a limit ends without a failure and has then found these ids. -/
def Finds (f : Filter) (s : Store) (r : Registry) (found : List EntryId) : Prop :=
  ∃ (q : SearchRequest) (limit : Option UInt64) (es : List Entry),
    q.filter = f ∧ q.Unlimited limit ∧ q.Finds s r limit es ∧ es.map Entry.id = found

/-- The filter holds of what the store has under the id. -/
def HoldsAt (r : Registry) (s : Store) (id : EntryId) (f : Filter) : Prop :=
  f.Holds fun a => ∃ e, s.entry? id = some e ∧ ∃ l, Leaf.bind s r a = .ok l ∧ l.Reads s e

theorem holdsAt_not : (Filter.not f).HoldsAt r s id ↔ ¬ f.HoldsAt r s id := holds_not

/-- A search finds the ids in the store at which the filter holds. -/
theorem Finds.mem_iff (hs : s.Synced r) (h : f.Finds s r found) :
    id ∈ found ↔ id ∈ s.ids ∧ f.HoldsAt r s id := by
  obtain ⟨q, limit, es, rfl, hq, hfinds, rfl⟩ := h
  have hat : ∀ e, s.entry? id = some e → (q.filter.HoldsAt r s id ↔ q.filter.ReadsIn r s s e) := by
    intro e he
    refine holds_congr (fun a => ?_) q.filter
    simp only [he, Option.some.injEq, exists_eq_left']
  rw [List.mem_map, Store.mem_ids]
  constructor
  · rintro ⟨e, he, rfl⟩
    obtain ⟨hstored, hreads⟩ := (hfinds.mem_iff hs hq).mp he
    exact ⟨⟨e, hstored⟩, (hat e hstored).mpr hreads⟩
  · rintro ⟨⟨e, he⟩, hholds⟩
    have hid : id = e.id := hs.ids _ (Store.entry?_eq_some_iff.mp he)
    exact ⟨e, (hfinds.mem_iff hs hq).mpr ⟨hid ▸ he, (hat e he).mp hholds⟩, hid.symm⟩

theorem Finds.ascending (hs : s.Synced r) (h : f.Finds s r found) :
    found.Pairwise fun a b => compare a b = .lt := by
  obtain ⟨q, limit, es, rfl, hq, hfinds, rfl⟩ := h
  rw [List.pairwise_map]
  exact hfinds.ascending hs hq

/-- What a search finds is known from where the filter holds. -/
theorem Finds.eq_filter (hs : s.Synced r) (h : f.Finds s r found) {p : EntryId → Bool}
    (hp : ∀ id ∈ s.ids, p id = true ↔ f.HoldsAt r s id) : found = s.ids.filter p := by
  refine eq_of_ascending (h.ascending hs) (s.ids_ascending.filter p) fun id => ?_
  rw [h.mem_iff hs, List.mem_filter]
  exact and_congr_right fun hid => (hp id hid).symm

/-- A join holds where enough searches for its parts find the id. -/
theorem holdsAt_join_iff (hs : s.Synced r) {idss : List (List EntryId)}
    (h : List.Forall₂ (fun f ids => Finds f s r ids) fs idss) (k : Connective) (hid : id ∈ s.ids) :
    (k.join fs).HoldsAt r s id ↔ k.Holds (id ∈ ·) idss := by
  rw [HoldsAt, k.holds_join]
  refine k.holds_congr_forall₂ (h.imp fun f ids hfinds => ?_)
  rw [hfinds.mem_iff hs, HoldsAt]
  exact (and_iff_right hid).symm

/-! ### Searches that end without a failure -/

/-- The filter can be planned, and evaluated on every entry of the store. -/
def Evaluable (f : Filter) (s : Store) (r : Registry) : Prop :=
  ∃ p, Plan.build s r f = .ok p ∧
    ∀ e, s.entry? e.id = some e → ∃ b, p.evaluator.answer s e.id (some e) = .ok b

theorem Evaluable.exists_finds (hs : s.Synced r) (h : f.Evaluable s r) :
    ∃ found, f.Finds s r found := by
  obtain ⟨p, hp, hclean⟩ := h
  have hq : SearchRequest.Unlimited ⟨f, none⟩ none := .inl rfl
  obtain ⟨es, hes⟩ := Directory.exists_finds hs hq hp hclean
  exact ⟨_, ⟨f, none⟩, none, es, rfl, hq, hes, rfl⟩

/-- An assertion that can be run on every entry shows what a search for it finds. -/
theorem finds_of_run (hs : s.Synced r)
    (h : ∃ p, Plan.build s r f = .ok p ∧
      (∀ e ∈ s.entries.values, (p.evaluator.answer s e.id (some e)).isOk = true) ∧
      ((p.candidates.stream s).rest.filterMap (Candidate.hit p.evaluator s)).map Entry.id =
        found) :
    f.Evaluable s r ∧ f.Finds s r found := by
  obtain ⟨p, hp, hok, rfl⟩ := h
  have hclean : ∀ e, s.entry? e.id = some e → ∃ b, p.evaluator.answer s e.id (some e) = .ok b :=
    fun e he => exists_eq_ok_of_isOk (hok e ((Store.mem_values_iff hs).mpr he))
  refine ⟨⟨p, hp, hclean⟩, ⟨f, none⟩, none, _, rfl, .inl rfl, ?_, rfl⟩
  exact (SearchRequest.finds_iff (.inl rfl) hp).mpr ⟨clean_stream hs hclean p.candidates, rfl⟩

theorem exists_plans (h : ∀ f ∈ fs, Evaluable f s r) :
    ∃ ps, List.Forall₂ (fun f p => Plan.build s r f = .ok p) fs ps ∧
      ∀ p ∈ ps, ∀ e, s.entry? e.id = some e →
        ∃ b, p.evaluator.answer s e.id (some e) = .ok b := by
  induction fs with
  | nil => exact ⟨[], .nil, by simp⟩
  | cons f fs ih =>
    obtain ⟨p, hp, hclean⟩ := h f List.mem_cons_self
    obtain ⟨ps, hps, hall⟩ := ih fun g hg => h g (List.mem_cons_of_mem f hg)
    exact ⟨p :: ps, .cons hp hps, List.forall_mem_cons.mpr ⟨hclean, hall⟩⟩

theorem evaluable_and (h : ∀ f ∈ fs, Evaluable f s r) : (Filter.and fs).Evaluable s r := by
  obtain ⟨ps, hps, hclean⟩ := exists_plans h
  refine ⟨_, Plan.build_and_iff.mpr ⟨ps, hps, rfl⟩, fun e he => ?_⟩
  refine Evaluator.exists_answerAll fun ev hev => ?_
  obtain ⟨p, hp, rfl⟩ := List.mem_map.mp (List.mem_mergeSort.mp hev)
  exact hclean p hp e he

theorem evaluable_or (h : ∀ f ∈ fs, Evaluable f s r) : (Filter.or fs).Evaluable s r := by
  obtain ⟨ps, hps, hclean⟩ := exists_plans h
  refine ⟨_, Plan.build_or_iff.mpr ⟨ps, hps, rfl⟩, fun e he => ?_⟩
  refine Evaluator.exists_answerAny fun ev hev => ?_
  obtain ⟨p, hp, rfl⟩ := List.mem_map.mp hev
  exact hclean p hp e he

theorem evaluable_not (h : f.Evaluable s r) : (Filter.not f).Evaluable s r := by
  obtain ⟨p, hp, hclean⟩ := h
  refine ⟨_, Plan.build_not_iff.mpr ⟨p, hp, rfl⟩, fun e he => ?_⟩
  obtain ⟨b, hb⟩ := hclean e he
  exact ⟨!b, map_eq_ok_iff.mpr ⟨b, hb, rfl⟩⟩

end Filter

/-- **Searching commutes with the connectives.** On a store that writes lead to, as far as the
searches end without a failure: a conjunction finds the ids of the store that all its parts find, a
disjunction those that one of its parts finds, and a negation those that its part does not find. And
filters that follow from each other by the laws of Boolean algebra find the same. -/
theorem finds_homomorphism (hs : s.Reachable r) :
    (∀ fs idss found, List.Forall₂ (fun f ids => Filter.Finds f s r ids) fs idss →
      (Filter.and fs).Finds s r found →
      found = s.ids.filter fun id => idss.all fun ids => ids.contains id) ∧
    (∀ fs idss found, List.Forall₂ (fun f ids => Filter.Finds f s r ids) fs idss →
      (Filter.or fs).Finds s r found →
      found = s.ids.filter fun id => idss.any fun ids => ids.contains id) ∧
    (∀ f found found', Filter.Finds f s r found → (Filter.not f).Finds s r found' →
      found' = s.ids.filter fun id => !found.contains id) ∧
    ∀ f g found found', Relation.EqvGen Filter.Rewrite f g → Filter.Finds f s r found →
      Filter.Finds g s r found' → found = found' := by
  have hsync := hs.synced
  refine ⟨?_, ?_, ?_, ?_⟩
  · intro fs idss found hparts hfinds
    refine hfinds.eq_filter hsync fun id hid => ?_
    rw [show Filter.and fs = Connective.all.join fs from rfl,
      Filter.holdsAt_join_iff hsync hparts _ hid, Connective.Holds]
    simp only [List.all_eq_true, List.contains_iff_mem]
  · intro fs idss found hparts hfinds
    refine hfinds.eq_filter hsync fun id hid => ?_
    rw [show Filter.or fs = Connective.any.join fs from rfl,
      Filter.holdsAt_join_iff hsync hparts _ hid, Connective.Holds]
    simp only [List.any_eq_true, List.contains_iff_mem]
  · intro f found found' hf hnot
    refine hnot.eq_filter hsync fun id hid => ?_
    rw [Bool.not_eq_true', ← Bool.not_eq_true, List.contains_iff_mem, hf.mem_iff hsync,
      Filter.holdsAt_not]
    exact not_congr (and_iff_right hid)
  · intro f g found found' heqv hf hg
    refine eq_of_ascending (hf.ascending hsync) (hg.ascending hsync) fun id => ?_
    rw [hf.mem_iff hsync, hg.mem_iff hsync]
    exact and_congr_right fun _ => Filter.holds_iff_of_eqvGen heqv _

/-- What a disjunction does not find is what the conjunction of the negations finds. The
disjunction is bounded by an index, and the conjunction scans all entries. -/
theorem finds_homomorphism_deMorgan :
    let s := (Store.new "people").performAll .people
      [.addEntry (.named 3 "Zoe"), .addEntry (.named 2 "Bob"), .addIndex "cn" false,
        .addEntry (.named 1 " ALICE ")]
    let f := Filter.assertion (.equality "cn" "Alice")
    let g := Filter.assertion (.greaterEq "cn" "carol")
    f.Finds s .people [1] ∧ g.Finds s .people [3] ∧ (Filter.or [f, g]).Finds s .people [1, 3] ∧
      (Filter.not (.or [f, g])).Finds s .people [2] ∧
      (Filter.and [.not g, .not f]).Finds s .people [2] := by
  intro s f g
  have hs : s.Reachable .people := (Store.Reachable.new "people").performAll _
  have hf : f.Evaluable s .people ∧ f.Finds s .people [1] :=
    Filter.finds_of_run hs.synced (exists_eq_ok_of_decide (by decide +kernel))
  have hg : g.Evaluable s .people ∧ g.Finds s .people [3] :=
    Filter.finds_of_run hs.synced (exists_eq_ok_of_decide (by decide +kernel))
  have heither : (Filter.or [f, g]).Evaluable s .people :=
    Filter.evaluable_or (by simp [hf.1, hg.1])
  have hneither : (Filter.and [.not g, .not f]).Evaluable s .people :=
    Filter.evaluable_and (by simp [Filter.evaluable_not, hf.1, hg.1])
  have hdual : Filter.Rewrite (.not (.or [f, g])) (.and [.not f, .not g]) := .deMorgan .any [f, g]
  have hswap : Filter.Rewrite (.and [.not f, .not g]) (.and [.not g, .not f]) :=
    .permute .all (.swap g.not f.not [])
  obtain ⟨-, hor, hnot, heqv⟩ := finds_homomorphism hs
  obtain ⟨found, hfound⟩ := heither.exists_finds hs.synced
  obtain rfl : found = [1, 3] :=
    (hor _ _ _ (.cons hf.2 (.cons hg.2 .nil)) hfound).trans (by decide +kernel)
  obtain ⟨found', hfound'⟩ := (Filter.evaluable_not heither).exists_finds hs.synced
  obtain rfl : found' = [2] := (hnot _ _ _ hfound hfound').trans (by decide +kernel)
  obtain ⟨found'', hfound''⟩ := hneither.exists_finds hs.synced
  obtain rfl : [2] = found'' :=
    heqv _ _ _ _ (.trans _ _ _ (.rel _ _ hdual) (.rel _ _ hswap)) hfound' hfound''
  exact ⟨hf.2, hg.2, hfound, hfound', hfound''⟩

end Directory
