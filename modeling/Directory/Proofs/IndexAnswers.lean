import Directory.Proofs.PatternMeaning
import Directory.Proofs.Subtypes
import Directory.Proofs.ValueLookup

/-!
# What an index answers

An assertion says something about the values that an entry has of a type or of a type below it.
`Assertion.HoldsOf` says what that is, kind by kind: the value and the asserted one are read under
the rule that decides the assertion, and stand in the asserted relation. `Entry.Satisfies` says that
an entry has such a value.

An assertion that an index answers never looks at the entry. It never fails either, and it answers
whether the entry that is stored under the id at the time satisfies the assertion
(`evaluate_iff_satisfies`).
-/

namespace Directory

/-- Under the rule, the value and the asserted one compare as they should. -/
def Related (rule? : Option MatchingRule) (holds : Ordering → Bool) (raw asserted : String) :
    Prop :=
  ∃ rule key bound, rule? = some rule ∧ rule.normalize raw = .ok key ∧
    rule.normalize asserted = .ok bound ∧ holds (rule.compare key bound) = true

namespace Assertion

/-- The assertion, made about the type, holds of the value. -/
def HoldsOf (t : AttributeType) (raw : String) : Assertion → Prop
  | equality _ value | approxMatch _ value => Related t.equality Ordering.isEq raw value
  | greaterEq _ value => Related t.orderingRule? Ordering.isGE raw value
  | lessEq _ value => Related t.orderingRule? Ordering.isLE raw value
  | presence _ => True
  | substring _ pattern =>
    ∃ rule normal text, t.substring = some rule ∧ rule.normalize raw = .ok (.text text) ∧
      pattern.normalize rule.normalizer = .ok normal ∧ normal.Describes text.toList

end Assertion

/-- The entry has a value of the asserted type, or of a type below it, of which the assertion
holds. -/
def Entry.Satisfies (r : Registry) (a : Assertion) (e : Entry) : Prop :=
  ∃ t, r.resolve a.attr = .ok t ∧
    ∃ description raws u raw, (description, raws) ∈ e.attributes.toList ∧
      r.resolve description = .ok u ∧ (u = t ∨ r.Below u t) ∧ raw ∈ raws ∧ a.HoldsOf t raw

variable {r : Registry} {s : Store} {t : AttributeType} {a : Assertion} {c : Condition} {e : Entry}
  {raw : String}

/-! ### Conditions and assertions -/

/-- A condition that compares with the form of the asserted value accepts the related values. -/
theorem related_iff {rule : MatchingRule} {rule? : Option MatchingRule} {value : String}
    {bound : NormalValue} {holds : Ordering → Bool} (hrule? : rule? = some rule)
    (hrule : c.rule? = some rule) (hvalue : rule.normalize value = .ok bound)
    (hkeys : ∀ key, c.acceptsKey key = holds (compare key bound)) :
    c.Accepts raw ↔ Related rule? holds raw value := by
  rw [Condition.accepts_iff hrule]
  constructor
  · rintro ⟨key, hkey, hacc⟩
    refine ⟨rule, key, bound, hrule?, hkey, hvalue, ?_⟩
    rwa [MatchingRule.compare_eq, ← hkeys]
  · rintro ⟨rule', key, bound', hrule', hkey, hvalue', hholds⟩
    obtain rfl : rule = rule' := Option.some.inj (hrule?.symm.trans hrule')
    obtain rfl : bound = bound' := Except.ok.inj (hvalue.symm.trans hvalue')
    refine ⟨key, hkey, ?_⟩
    rwa [hkeys, ← MatchingRule.compare_eq rule]

theorem accepts_equalTo_iff {approx : Bool} {value : String}
    (h : Leaf.conditionOf.equalTo t a approx value = .ok c) :
    c.Accepts raw ↔ Related t.equality Ordering.isEq raw value := by
  obtain ⟨rule, bound, hrule, hvalue, rfl⟩ := Leaf.equalTo_eq_ok_iff.mp h
  refine related_iff hrule rfl hvalue fun key => ?_
  rw [Condition.acceptsKey, ← compare_beq_eq]
  cases compare key bound <;> rfl

theorem accepts_onSide_iff {side : Side} {value : String}
    (h : Leaf.conditionOf.onSide t side value = .ok c) :
    c.Accepts raw ↔ Related t.orderingRule? side.holds raw value := by
  obtain ⟨rule, bound, hrule, hvalue, rfl⟩ := Leaf.onSide_eq_ok_iff.mp h
  exact related_iff hrule rfl hvalue fun key => rfl

/-- The condition that an assertion makes on a value says of it what the assertion says. -/
theorem accepts_iff_holdsOf (h : Leaf.conditionOf t a = .ok c) :
    c.Accepts raw ↔ a.HoldsOf t raw := by
  cases a with
  | equality attr value => exact accepts_equalTo_iff h
  | approxMatch attr value => exact accepts_equalTo_iff h
  | greaterEq attr value => exact accepts_onSide_iff h
  | lessEq attr value => exact accepts_onSide_iff h
  | presence attr =>
    cases h
    exact iff_of_true (Condition.accepts_present raw) trivial
  | substring attr pattern =>
    simp only [Leaf.conditionOf] at h
    split at h
    · cases h
    · next rule hrule =>
      split at h
      · split at h
        · next normal hnormal =>
          cases h
          rw [Condition.accepts_iff rfl, Assertion.HoldsOf]
          constructor
          · rintro ⟨key, hkey, hacc⟩
            obtain ⟨text, rfl, hdescribes⟩ := Pattern.accepts_iff.mp hacc
            exact ⟨rule, normal, text, hrule, hkey, hnormal, hdescribes⟩
          · rintro ⟨rule', normal', text, hrule', hkey, hnormal', hdescribes⟩
            obtain rfl : rule = rule' := Option.some.inj (hrule.symm.trans hrule')
            obtain rfl : normal = normal' := Except.ok.inj (hnormal.symm.trans hnormal')
            exact ⟨_, hkey, Pattern.accepts_iff.mpr ⟨text, rfl, hdescribes⟩⟩
        · cases h
      · cases h

/-- An entry satisfies an assertion through a described value that its condition accepts. -/
theorem satisfies_iff (hr : r.Built) (ht : r.resolve a.attr = .ok t)
    (hc : Leaf.conditionOf t a = .ok c) :
    e.Satisfies r a ↔ ∃ raw, e.Described r t raw ∧ c.Accepts raw := by
  have hkinds : ∀ u, (u = t ∨ u ∈ r.subtypes t) ↔ (u = t ∨ r.Below u t) := fun u =>
    or_congr Iff.rfl (Registry.mem_subtypes_iff hr)
  constructor
  · rintro ⟨t', ht', description, raws, u, raw, hmem, hu, hkind, hraw, hholds⟩
    obtain rfl : t = t' := Except.ok.inj (ht.symm.trans ht')
    exact ⟨raw, ⟨description, raws, u, hmem, hu, (hkinds u).mpr hkind, hraw⟩,
      (accepts_iff_holdsOf hc).mpr hholds⟩
  · rintro ⟨raw, ⟨description, raws, u, hmem, hu, hkind, hraw⟩, hacc⟩
    exact ⟨t, ht, description, raws, u, raw, hmem, hu, (hkinds u).mp hkind, hraw,
      (accepts_iff_holdsOf hc).mp hacc⟩

/-! ### Answers from an index -/

theorem Store.later_performAll (s : Store) (ws : List StoreWrite) : s.Later (s.performAll r ws) := by
  induction ws generalizing s with
  | nil => exact .refl s
  | cons w ws ih =>
    refine Later.trans ?_ (ih (w.perform r s))
    rw [StoreWrite.perform]
    split
    · next s' hs' => exact Store.later_apply hs'
    · exact .refl s

/-- **What an index answers.** An assertion was bound to a store where an index can answer it, and
then any writes followed. Evaluated on a stored entry it does not fail, and it holds exactly if the
entry has a value, under a description of the asserted type or of a type below it, of which the
assertion holds. -/
theorem evaluate_iff_satisfies (hr : r.Built) (ho : r.LowercaseOids) (hs : s.Reachable r)
    {l : Leaf} (hl : Leaf.bind s r a = .ok l) (hindex : l.index ≠ none) (ws : List StoreWrite)
    {cand : Candidate} (he : Store.entry? (s.performAll r ws) cand.id = some e) :
    ∃ b, (l.evaluate (s.performAll r ws) cand).1 = .ok b ∧ (b = true ↔ e.Satisfies r a) := by
  obtain ⟨t, c, ht, hc, rfl⟩ := Leaf.bind_eq_bound_iff.mp hl
  have htypes : t ∈ r.types := Registry.resolve_mem ht
  have hm : (s.performAll r ws).Reachable r := hs.performAll ws
  have hlater : s.Later (s.performAll r ws) := s.later_performAll ws
  generalize s.performAll r ws = m at he hm hlater ⊢
  have hid : cand.id = e.id := hm.synced.ids _ (Store.entry?_eq_some_iff.mp he)
  obtain ⟨ix, -, hfound, -⟩ := Leaf.exists_index_of_bound hr ho hs hm hlater htypes hindex
  have hreads := Leaf.reads_bound_of_index (e := e) hr ho hs hm hlater htypes hc hindex
  rw [Leaf.reads_of_index hfound, ← hid, he] at hreads
  simp only [Option.some.injEq, exists_eq_left'] at hreads
  have hanswer : (Leaf.bound s r t c).answer m cand.id (cand.view m) =
      .ok (c.testIndex m ix cand.id).holds := by
    simp only [Leaf.answer, hfound]
    rfl
  obtain ⟨d, hd, -⟩ := (Leaf.bound s r t c).evaluate_eq_answer m cand
  rw [hd, hanswer]
  exact ⟨_, rfl, hreads.trans (satisfies_iff hr ht hc).symm⟩

/-- The badge of a visitor is a text by its own rule and a number by the rule of badges, whose index
answers. The entry was stored after the assertion had been bound. -/
theorem evaluate_iff_satisfies_subtype :
    let e := Entry.ofAttributes 1 "" [("visitorBadge", ["12", " 07 "])]
    let s := (Store.new "people").performAll .badges [.addIndex "badge" true]
    let ws := [StoreWrite.addEntry e]
    let a := Assertion.lessEq "BADGE" "+7"
    ∃ l, Leaf.bind s .badges a = .ok l ∧ l.index ≠ none ∧
      Store.entry? (s.performAll .badges ws) 1 = some e ∧
      (l.evaluate (s.performAll .badges ws) (.new 1)).1 = .ok true ∧ e.Satisfies .badges a := by
  intro e s ws a
  have hs : s.Reachable .badges := (Store.Reachable.new "people").performAll _
  have hbind : ∃ l, Leaf.bind s .badges a = .ok l ∧ l.index ≠ none ∧
      (l.evaluate (s.performAll .badges ws) (.new 1)).1 = .ok true :=
    exists_eq_ok_of_decide (by decide +kernel)
  obtain ⟨l, hl, hindex, htrue⟩ := hbind
  have he : Store.entry? (s.performAll .badges ws) (Candidate.new 1).id = some e := by
    decide +kernel
  obtain ⟨b, hb, hiff⟩ :=
    evaluate_iff_satisfies Registry.built_badges Registry.lowercaseOids_badges hs hl hindex ws he
  obtain rfl : b = true := Except.ok.inj (hb.symm.trans htrue)
  exact ⟨l, hl, hindex, he, htrue, hiff.mp rfl⟩

end Directory
