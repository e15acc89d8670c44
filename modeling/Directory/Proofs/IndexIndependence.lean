import Directory.Proofs.SearchScan
import Directory.Proofs.ValueLookup

/-!
# When indexes do not change what is found

An index holds the values that an entry has under every description of a type, while a search
without an index looks at the first description that it comes upon. `IndexIndependent r M` says that
this makes no difference over the entries `M`: unlimited searches that end without a failure find
the same in all stores with these entries, whatever indexes the stores have.

It is so exactly when each value of a type that can be indexed is looked up as well, or one with the
same canonical form is (`indexIndependent_iff`). An entry with values under two names of a type
shows that it is not so of all entries (`exists_index_dependence`).
-/

namespace Directory

/-- Searches over these entries find the same whatever indexes there are. -/
def IndexIndependent (r : Registry) (M : SortedMap EntryId Entry) : Prop :=
  ∀ s s' : Store, s.Reachable r → s'.Reachable r → s.entries = M → s'.entries = M →
    ∀ (q : SearchRequest) (limit : Option UInt64), q.Unlimited limit →
      ∀ es es', q.Finds s r limit es → q.Finds s' r limit es' → es = es'

/-- The type can be indexed over these entries, under its equality rule. -/
def Indexable (r : Registry) (M : SortedMap EntryId Entry) (t : AttributeType)
    (rule : MatchingRule) : Prop :=
  t ∈ r.types ∧ t.equality = some rule ∧
    ∀ b ∈ M.toList, ∀ raw, b.2.Described r t raw → ∃ key, rule.normalize raw = .ok key

variable {r : Registry} {s : Store} {t : AttributeType} {rule : MatchingRule} {c : Condition}
  {e : Entry}

/-! ### Overt values are found without an index -/

/-- A type whose assertions an index can answer can be indexed. -/
theorem indexable_of_bound (hr : r.Built) (ho : r.LowercaseOids) (hs : s.Reachable r)
    (ht : t ∈ r.types) (h : (Leaf.bound s r t c).index ≠ none) (hrule : t.equality = some rule) :
    Indexable r s.entries t rule := by
  obtain ⟨ix, hix, -, hrule', -, hcovers⟩ :=
    Leaf.exists_index_of_bound hr ho hs hs (.refl s) ht h
  obtain rfl : rule = ix.rule := Option.some.inj (hrule.symm.trans hrule')
  refine ⟨ht, hrule, fun b hb raw hraw => ?_⟩
  have hstored : s.entry? b.1 = some b.2 := Store.entry?_eq_some_iff.mpr hb
  exact Store.exists_key_of_described hs.checked hix hcovers hstored hraw

/-- Over entries whose values are overt, an unlimited search finds those that meet its filter. -/
theorem mem_found_iff (hr : r.Built) (ho : r.LowercaseOids) (hs : s.Reachable r)
    (hovert : ∀ t rule, Indexable r s.entries t rule → ∀ b ∈ s.entries.toList, b.2.Overt r t rule)
    {q : SearchRequest} {limit : Option UInt64} (hq : q.Unlimited limit) {es : List Entry}
    (h : q.Finds s r limit es) : e ∈ es ↔ s.entry? e.id = some e ∧ e.Meets r q.filter := by
  rw [h.mem_iff hs.synced hq]
  refine and_congr_right fun he => ?_
  refine Filter.readsIn_iff_meets hr ho hs hs (.refl s) he fun t ht c hindex rule hrule => ?_
  exact hovert t rule (indexable_of_bound hr ho hs ht hindex hrule) _
    (Store.entry?_eq_some_iff.mp he)

theorem indexIndependent_of_overt (hr : r.Built) (ho : r.LowercaseOids)
    {M : SortedMap EntryId Entry}
    (hovert : ∀ t rule, Indexable r M t rule → ∀ b ∈ M.toList, b.2.Overt r t rule) :
    IndexIndependent r M := by
  rintro s s' hs hs' rfl hentries q limit hq es es' h h'
  refine eq_of_ascending (h.ascending hs.synced hq) (h'.ascending hs'.synced hq) fun e => ?_
  rw [mem_found_iff hr ho hs hovert hq h, mem_found_iff hr ho hs' (hentries ▸ hovert) hq h',
    Store.entry?, Store.entry?, hentries]

/-! ### Stores with and without an index on a type -/

namespace Store

variable {s₀ : Store}

/-- Entries with valid values can be added to a store without indexes one after the other. -/
theorem exists_addAll {bs : List (EntryId × Entry)}
    (hvalid : ∀ b ∈ bs, b.1 = b.2.id ∧ checkValues r b.2 = .ok ())
    (hasc : bs.Pairwise fun a b => compare a.1 b.1 = .lt) (hs : s.Reachable r)
    (hbare : s.indexes = []) (hnew : ∀ b ∈ bs, s.entry? b.1 = none) :
    ∃ s' : Store, s'.Reachable r ∧ s'.indexes = [] ∧
      ∀ id e, s'.entry? id = some e ↔ (id, e) ∈ bs ∨ s.entry? id = some e := by
  induction bs generalizing s with
  | nil => exact ⟨s, hs, hbare, fun id e => by simp⟩
  | cons b bs ih =>
    obtain ⟨⟨hid, hvalues⟩, hvalid⟩ := List.forall_mem_cons.mp hvalid
    obtain ⟨hnew, hnewer⟩ := List.forall_mem_cons.mp hnew
    obtain ⟨hlt, hasc⟩ := List.pairwise_cons.mp hasc
    have hadded : s.addEntry r b.2 = .ok (s.withEntry b.2 fun _ => []) := by
      refine addEntry_eq_ok_iff.mpr ⟨hid ▸ hnew, hvalues, fun _ => [], ?_, rfl⟩
      rw [hbare]
      exact fun ix hix => absurd hix List.not_mem_nil
    have hentry : ∀ id, Store.entry? (s.withEntry b.2 fun _ => []) id =
        if id = b.1 then some b.2 else s.entry? id := fun id => by
      rw [entry?_withEntry, hid]
    -- the ids ascend, so that those behind this entry are still new
    obtain ⟨s', hs', hbare', hiff⟩ := ih (s := s.withEntry b.2 fun _ => []) hvalid hasc
      (hs.write (.addEntry b.2) hadded) (by rw [withEntry, hbare]; rfl) fun b' hb' => by
        have hne : b'.1 ≠ b.1 := fun h => not_compare_self_lt b.1 (h ▸ hlt b' hb')
        rw [hentry, if_neg hne]
        exact hnewer b' hb'
    refine ⟨s', hs', hbare', fun id e => ?_⟩
    rw [hiff, hentry, List.mem_cons, or_assoc, or_left_comm]
    refine or_congr Iff.rfl ?_
    by_cases h : id = b.1
    · subst h
      simp [hnew, Prod.ext_iff, eq_comm]
    · simp [h, Prod.ext_iff]

/-- The entries of a store can be had without any index. -/
theorem exists_without_index (hs₀ : s₀.Reachable r) :
    ∃ s : Store, s.Reachable r ∧ s.entries = s₀.entries ∧ s.indexes = [] := by
  have hvalid : ∀ b ∈ s₀.entries.toList, b.1 = b.2.id ∧ checkValues r b.2 = .ok () :=
    fun b hb => ⟨hs₀.synced.ids b hb, hs₀.checked.values b hb⟩
  obtain ⟨s, hs, hbare, hiff⟩ :=
    exists_addAll hvalid s₀.entries.ascending (.new s₀.partition) rfl fun b _ => rfl
  refine ⟨s, hs, SortedMap.ext_find? fun id => ?_, hbare⟩
  ext e
  show s.entry? id = some e ↔ s₀.entry? id = some e
  have hempty : Store.entry? (.new s₀.partition) id = none := rfl
  rw [hiff, hempty, entry?_eq_some_iff]
  simp

/-- A type that can be indexed gets its index. -/
theorem exists_with_index (hr : r.Built) (ho : r.LowercaseOids) (hs : s.Reachable r)
    (hbare : s.indexes = []) (h : Indexable r s.entries t rule) :
    ∃ s' : Store, s'.Reachable r ∧ s'.entries = s.entries ∧
      ∃ ix, s'.usableIndexFor? r t = some ix := by
  obtain ⟨ht, hrule, hkeys⟩ := h
  let ix : AttributeIndex := ⟨t, rule, true, (t :: r.subtypes t).map AttributeType.oid, .empty⟩
  have hcreate : AttributeIndex.create r t true = .ok ix := by
    rw [AttributeIndex.create, hrule]
    rfl
  have haccepts : ∀ b ∈ s.entries.toList, ix.Accepts r b.2 := by
    intro b hb a ha
    obtain ⟨u, hu, -⟩ := checkValues_eq_ok_iff.mp (hs.checked.values b hb) a ha
    refine ⟨u, hu, fun hcovers raw hraw => hkeys b hb raw ?_⟩
    have hkind := (AttributeIndex.covers_iff hr ht (Registry.below_subset _ _) rfl
      (Registry.resolve_mem hu)).mp hcovers
    exact ⟨a.1, a.2, u, ha, hu, hkind, hraw⟩
  obtain ⟨keys, hfilled⟩ := exists_forall_eq_ok_iff.mpr fun b hb =>
    AttributeIndex.exists_keysFor_iff.mpr (haccepts b hb)
  have hfree : s.indexFor? t.oid = none := by rw [indexFor?, hbare]; rfl
  have hadded : s.addIndex r t.oid true = .ok (s.withIndex ix keys) :=
    addIndex_eq_ok_iff.mpr
      ⟨t, ix, Registry.resolve_oid hr ho ht, hfree, hcreate, keys, hfilled, rfl⟩
  refine ⟨s.withIndex ix keys, hs.write (.addIndex t.oid true) hadded, rfl, ?_⟩
  have hknown : t.isKnownAs t.oid = true := by simp [AttributeType.isKnownAs]
  simp [usableIndexFor?, indexFor?, withIndex, hbare, foldl_insertAll_eq, ix, hknown]

end Store

/-! ### Covert values are found with an index only -/

namespace Leaf

theorem conditionOf_equality {attr raw : String} {key : NormalValue}
    (hrule : t.equality = some rule) (hkey : rule.normalize raw = .ok key) :
    conditionOf t (.equality attr raw) = .ok (.equals false rule key) :=
  equalTo_eq_ok_iff.mpr ⟨rule, key, hrule, hkey, rfl⟩

theorem accepts_equals_iff {approx : Bool} {key : NormalValue} {raw : String} :
    (Condition.equals approx rule key).Accepts raw ↔ rule.normalize raw = .ok key := by
  rw [Condition.accepts_iff rfl]
  simp [Condition.acceptsKey]

end Leaf

/-- Where a type can be indexed, an unlimited search for one of its values ends without a failure,
and what it finds is what its one assertion reads. -/
theorem exists_finds_equality (hr : r.Built) (ho : r.LowercaseOids) (hs : s.Reachable r)
    (h : Indexable r s.entries t rule) {raw : String} {key : NormalValue}
    (hkey : rule.normalize raw = .ok key) :
    ∃ es, SearchRequest.Finds ⟨.assertion (.equality t.oid raw), none⟩ s r none es ∧
      ∀ e, e ∈ es ↔ s.entry? e.id = some e ∧
        (Leaf.bound s r t (.equals false rule key)).Reads s e := by
  obtain ⟨ht, hrule, hkeys⟩ := h
  have hbind : Leaf.bind s r (.equality t.oid raw) =
      .ok (Leaf.bound s r t (.equals false rule key)) :=
    Leaf.bind_eq_bound_iff.mpr
      ⟨t, _, Registry.resolve_oid hr ho ht, Leaf.conditionOf_equality hrule hkey, rfl⟩
  generalize hl : Leaf.bound s r t (.equals false rule key) = l at hbind ⊢
  have hclean : ∀ e, s.entry? e.id = some e → ∃ b, l.answer s e.id (some e) = .ok b := by
    intro e he
    subst hl
    refine Leaf.exists_answer_of_test fun raw' hraw' => ?_
    have hraw : e.Described r t raw' := Entry.described_of_mem_lookedUp hr ho ht hraw'
    obtain ⟨key', hkey'⟩ := hkeys _ (Store.entry?_eq_some_iff.mp he) raw' hraw
    exact ⟨_, bind_eq_ok_iff.mpr ⟨key', hkey', rfl⟩⟩
  have hp := Plan.build_assertion_iff.mpr ⟨l, hbind, rfl⟩
  have hfound : ∃ es, SearchRequest.Finds ⟨.assertion (.equality t.oid raw), none⟩ s r none es :=
    exists_finds hs.synced (.inl rfl) hp hclean
  obtain ⟨es, hes⟩ := hfound
  refine ⟨es, hes, fun e => ?_⟩
  rw [hes.mem_iff hs.synced (.inl rfl), Store.Accepts, Filter.ReadsIn, Filter.holds_assertion,
    hbind]
  simp only [Except.ok.injEq, exists_eq_left']

theorem overt_of_indexIndependent (hr : r.Built) (ho : r.LowercaseOids) {s₀ : Store}
    (hs₀ : s₀.Reachable r) (h : IndexIndependent r s₀.entries) (ht : Indexable r s₀.entries t rule)
    {b : EntryId × Entry} (hb : b ∈ s₀.entries.toList) : b.2.Overt r t rule := by
  intro raw hraw
  obtain ⟨key, hkey⟩ := ht.2.2 b hb raw hraw
  have hcond : Leaf.conditionOf t (.equality t.oid raw) = .ok (.equals false rule key) :=
    Leaf.conditionOf_equality ht.2.1 hkey
  obtain ⟨s, hs, hentries, hbare⟩ := Store.exists_without_index hs₀
  rw [← hentries] at ht hb
  obtain ⟨s', hs', hentries', ix, hix⟩ := Store.exists_with_index hr ho hs hbare ht
  obtain ⟨es, hes, hmem⟩ := exists_finds_equality hr ho hs ht hkey
  obtain ⟨es', hes', hmem'⟩ := exists_finds_equality hr ho hs' (hentries' ▸ ht) hkey
  obtain rfl : es = es' :=
    h s s' hs hs' hentries (hentries'.trans hentries) _ none (.inl rfl) es es' hes hes'
  have hb₁ : s.entry? b.2.id = some b.2 := by
    rw [Store.entry?_eq_some_iff, ← hs.synced.ids b hb]
    exact hb
  have hb₂ : s'.entry? b.2.id = some b.2 := by rwa [Store.entry?, hentries']
  -- the index gives the entry, so that the search without it must give it too
  have hindex : (Leaf.bound s' r t (.equals false rule key)).index ≠ none := by
    simp [Leaf.bound, hix, Condition.compatible]
  have hfound : b.2 ∈ es := (hmem' b.2).mpr ⟨hb₂,
    (Leaf.reads_bound_of_index hr ho hs' hs' (.refl s') ht.1 hcond hindex).mpr
      ⟨b.2, hb₂, raw, hraw, Leaf.accepts_equals_iff.mpr hkey⟩⟩
  have hnone : (Leaf.bound s r t (.equals false rule key)).index = none := by
    simp [Leaf.bound, Store.usableIndexFor?, Store.indexFor?, hbare]
  obtain ⟨raw', hraw', hacc⟩ := (Leaf.reads_bound_of_no_index hnone).mp ((hmem b.2).mp hfound).2
  exact ⟨raw', hraw', (Leaf.accepts_equals_iff.mp hacc).trans hkey.symm⟩

/-- **Indexes do not change what is found over these entries exactly when their values are overt**,
for every type that can be indexed over them. -/
theorem indexIndependent_iff (hr : r.Built) (ho : r.LowercaseOids) {s₀ : Store}
    (hs₀ : s₀.Reachable r) :
    IndexIndependent r s₀.entries ↔
      ∀ t rule, Indexable r s₀.entries t rule → ∀ b ∈ s₀.entries.toList, b.2.Overt r t rule :=
  ⟨fun h _ _ ht _ hb => overt_of_indexIndependent hr ho hs₀ h ht hb,
    indexIndependent_of_overt hr ho⟩

/-- Entries with one name each are found alike. -/
theorem indexIndependent_iff_one_name :
    let s := (Store.new "people").performAll .people
      [.addEntry (.named 1 "Alice"), .addEntry (.named 2 "Bob")]
    Registry.people.Built ∧ Registry.people.LowercaseOids ∧ s.Reachable .people ∧
      IndexIndependent .people s.entries := by
  intro s
  have hs : s.Reachable .people := (Store.Reachable.new "people").performAll _
  have hlooked : ∀ t ∈ Registry.people.types, ∀ b ∈ s.entries.toList,
      ∀ a ∈ b.2.attributes.toList, ∀ raw ∈ a.2, raw ∈ b.2.lookedUp .people t := by
    decide +kernel
  refine ⟨Registry.built_people, Registry.lowercaseOids_people, hs, ?_⟩
  rw [indexIndependent_iff Registry.built_people Registry.lowercaseOids_people hs]
  rintro t rule ⟨ht, -, -⟩ b hb raw ⟨description, raws, u, ha, -, -, hraw⟩
  exact ⟨raw, hlooked t ht b hb _ ha raw hraw, rfl⟩

/-- An entry with values under two names of a type: a search for the second value finds it with an
index on the type, and does not find it without one. -/
theorem exists_index_dependence :
    let e := Entry.ofAttributes 1 "cn=a" [("cn", ["a"]), ("commonName", ["b"])]
    let s := (Store.new "people").performAll .people [.addEntry e]
    let s' := (Store.new "people").performAll .people [.addEntry e, .addIndex "cn" false]
    let q : SearchRequest := ⟨.assertion (.equality "cn" "b"), none⟩
    Registry.people.Built ∧ s.Reachable .people ∧ s'.Reachable .people ∧ s.entries = s'.entries ∧
      q.Finds s .people none [] ∧ q.Finds s' .people none [e] ∧
      ¬ IndexIndependent .people s.entries := by
  intro e s s' q
  have hs : s.Reachable .people := (Store.Reachable.new "people").performAll _
  have hs' : s'.Reachable .people := (Store.Reachable.new "people").performAll _
  have hentries : s.entries = s'.entries := by decide +kernel
  have hscan : ∃ p, Plan.build s .people q.filter = .ok p ∧
      Clean p.evaluator s (p.candidates.stream s).rest ∧
      (p.candidates.stream s).rest.filterMap (Candidate.hit p.evaluator s) = [] :=
    exists_eq_ok_of_decide (by decide +kernel)
  have hindexed : ∃ p, Plan.build s' .people q.filter = .ok p ∧
      Clean p.evaluator s' (p.candidates.stream s').rest ∧
      (p.candidates.stream s').rest.filterMap (Candidate.hit p.evaluator s') = [e] :=
    exists_eq_ok_of_decide (by decide +kernel)
  obtain ⟨p, hp, hclean⟩ := hscan
  obtain ⟨p', hp', hclean'⟩ := hindexed
  have hfinds : q.Finds s .people none [] := (SearchRequest.finds_iff (.inl rfl) hp).mpr hclean
  have hfinds' : q.Finds s' .people none [e] :=
    (SearchRequest.finds_iff (.inl rfl) hp').mpr hclean'
  refine ⟨Registry.built_people, hs, hs', hentries, hfinds, hfinds', fun h => ?_⟩
  cases h s s' hs hs' rfl hentries.symm q none (.inl rfl) [] [e] hfinds hfinds'

end Directory
