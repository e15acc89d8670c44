import Directory.Proofs.SearchScan
import Directory.Proofs.ValueLookup

/-!
# Searches while the store changes

A search is opened on a store, and the writes go on. `SearchRun` is the search with the stores that
there have been since. A cursor with a bounded plan looks entries up when their turn comes. A full
scan keeps the entries that it saw when it was opened, but an assertion that had an index then is
answered by that index as it is now, which knows the entries of now (`Assertion.HoldsLate`).

* What is handed out was always stored in that form at some moment, and the filter holds of it in
  this mixed reading (`SearchRun.accepted_iff`).
* If its values are overt, then it was accepted at some moment exactly if it meets the filter
  itself. A bounded plan ensures this, and so does a full scan for what is still stored as it was,
  or if it uses no index.
* Otherwise a full scan can hand out what met the filter at no moment
  (`exists_handed_out_though_never_accepted`).
-/

namespace Directory

/-- A search opened on `s₀` with the cursor `c₀`: the stores before the present one, the present
store, and the cursor as it is now. -/
inductive SearchRun (r : Registry) (s₀ : Store) (c₀ : SearchCursor) :
    List Store → Store → SearchCursor → Prop where
  | opened : SearchRun r s₀ c₀ [] s₀ c₀
  | write {past : List Store} {s s' : Store} {c : SearchCursor} (w : StoreWrite) :
      SearchRun r s₀ c₀ past s c → w.apply r s = .ok s' → SearchRun r s₀ c₀ (s :: past) s' c
  | next {past : List Store} {s : Store} {c : SearchCursor} :
      SearchRun r s₀ c₀ past s c → SearchRun r s₀ c₀ past s (c.next s).2
  | close {past : List Store} {s : Store} {c : SearchCursor} :
      SearchRun r s₀ c₀ past s c → SearchRun r s₀ c₀ past s c.close

variable {r : Registry} {s₀ s m : Store} {past : List Store} {c₀ c : SearchCursor} {f : Filter}
  {p : Plan} {a : Assertion} {e : Entry} {limit : Option UInt64}

/-! ### What a run keeps -/

/-- The stores since the opening have kept its indexes, and the cursor has kept its evaluator and
got no new candidates. -/
structure SearchRun.Kept (r : Registry) (s₀ : Store) (c₀ : SearchCursor) (past : List Store)
    (s : Store) (c : SearchCursor) : Prop where
  moments : ∀ m ∈ s :: past, m.Reachable r ∧ s₀.Later m
  opening : s₀ ∈ s :: past
  evaluator : c.evaluator = c₀.evaluator
  pending : c.pending ⊆ c₀.pending

theorem SearchRun.kept (hs₀ : s₀.Reachable r) (run : SearchRun r s₀ c₀ past s c) :
    SearchRun.Kept r s₀ c₀ past s c := by
  induction run with
  | opened =>
    refine ⟨fun m hm => ?_, by simp, rfl, List.Subset.refl _⟩
    obtain rfl := List.mem_singleton.mp hm
    exact ⟨hs₀, .refl m⟩
  | @write past s s' c w _ hw ih =>
    refine ⟨fun m hm => ?_, List.mem_cons_of_mem _ ih.opening, ih.evaluator, ih.pending⟩
    rcases List.mem_cons.mp hm with rfl | hm
    · obtain ⟨hs, hlater⟩ := ih.moments s (by simp)
      exact ⟨hs.write w hw, hlater.trans (Store.later_apply hw)⟩
    · exact ih.moments m hm
  | @next past s c _ ih =>
    exact ⟨ih.moments, ih.opening, (c.next_evaluator s).trans ih.evaluator,
      List.Subset.trans (c.next_pending_subset s) ih.pending⟩
  | close _ ih => exact ⟨ih.moments, ih.opening, ih.evaluator, List.nil_subset _⟩

/-- An entry that is handed out has been evaluated in the present store. A bounded plan found it
there, and a full scan in the store of the opening. -/
theorem SearchRun.answer_of_next (hs₀ : s₀.Reachable r)
    (run : SearchRun r s₀ (.start s₀ p.candidates p.evaluator limit) past s c)
    (hnext : (c.next s).1 = .ok (some e)) :
    p.evaluator.answer s e.id (some e) = .ok true ∧
      (p.candidates.isBounded = true → s.entry? e.id = some e) ∧
      (p.candidates.isBounded = false → s₀.entry? e.id = some e) := by
  have hkept := run.kept hs₀
  have hs : s.Synced r := (hkept.moments s (by simp)).1.synced
  obtain ⟨b, hb, hhit⟩ := SearchCursor.exists_hit_of_next hnext
  have hpending : b ∈ (p.candidates.stream s₀).rest := hkept.pending hb
  have hev : c.evaluator = p.evaluator := hkept.evaluator
  rw [hev] at hhit
  cases hcands : p.candidates with
  | bounded ids =>
    rw [hcands] at hpending
    obtain ⟨id, -, rfl⟩ := List.mem_map.mp hpending
    obtain ⟨hans, he⟩ := hit_new.mp hhit
    obtain rfl : id = e.id := hs.ids _ (Store.entry?_eq_some_iff.mp he)
    exact ⟨hans, fun _ => he, (nomatch ·)⟩
  | unbounded =>
    rw [hcands] at hpending
    obtain ⟨e', he', rfl⟩ := List.mem_map.mp hpending
    obtain ⟨hans, rfl⟩ := hit_ofEntry.mp hhit
    exact ⟨hans, (nomatch ·), fun _ => (Store.mem_values_iff hs₀.synced).mp he'⟩

/-! ### What a late evaluation says -/

/-- The assertion holds in a search that was opened on `s₀` and looks at the entry in the store `s`:
if it had an index, of a value that the entry stored in `s` under the id has, and otherwise of a
value that is looked up in the entry at hand. -/
def Assertion.HoldsLate (r : Registry) (s₀ s : Store) (e : Entry) (a : Assertion) : Prop :=
  ∃ t c, r.resolve a.attr = .ok t ∧ Leaf.conditionOf t a = .ok c ∧
    if (Leaf.bound s₀ r t c).index = none then ∃ raw ∈ e.lookedUp r t, c.Accepts raw
    else ∃ e', s.entry? e.id = some e' ∧ ∃ raw, e'.Described r t raw ∧ c.Accepts raw

/-- Bound to the store of the opening and read in a later one, a filter holds in this mixed
reading. -/
theorem Filter.readsIn_iff_holdsLate (hr : r.Built) (ho : r.LowercaseOids) (hs₀ : s₀.Reachable r)
    (hs : s.Reachable r) (hlater : s₀.Later s) :
    f.ReadsIn r s₀ s e ↔ f.Holds (Assertion.HoldsLate r s₀ s e) := by
  refine Filter.holds_congr (fun a => Leaf.exists_bind_congr fun t ht c hc => ?_) f
  split
  · next hnone => exact Leaf.reads_bound_of_no_index hnone
  · next hindex => exact Leaf.reads_bound_of_index hr ho hs₀ hs hlater ht hc hindex

/-- An evaluation answers what the filter says, bound when it was planned and read now. -/
theorem Plan.answer_iff_readsIn (hp : Plan.build s₀ r f = .ok p) {b : Bool}
    (hb : p.evaluator.answer s e.id (some e) = .ok b) : b = true ↔ f.ReadsIn r s₀ s e := by
  rw [Evaluator.holds_iff_of_answer (Leaf.truthful_reads s e) hb, Plan.holds_evaluator_iff hp]
  rfl

/-- A full scan that is drained at a later moment hands out the entries that were stored at the
opening and of which the filter holds in the mixed reading, no others. -/
theorem mem_late_drain_iff (hr : r.Built) (ho : r.LowercaseOids) (hs₀ : s₀.Reachable r)
    (hs : s.Reachable r) (hlater : s₀.Later s) (hp : Plan.build s₀ r f = .ok p)
    (hok : ((SearchCursor.start s₀ .unbounded p.evaluator none).drain s).failure = none) :
    e ∈ ((SearchCursor.start s₀ .unbounded p.evaluator none).drain s).entries ↔
      s₀.entry? e.id = some e ∧ f.Holds (Assertion.HoldsLate r s₀ s e) := by
  have hstream : (SearchCursor.start s₀ .unbounded p.evaluator none).stream =
      some ⟨true, s₀.entries.values.map Candidate.ofEntry⟩ := rfl
  have hclean : Clean p.evaluator s (s₀.entries.values.map Candidate.ofEntry) :=
    (SearchCursor.drain_failure_iff rfl hstream).mp hok
  have hentries := SearchCursor.drain_entries rfl hstream hok
  rw [hentries, ← Store.mem_values_iff hs₀.synced, List.filterMap_map, List.mem_filterMap,
    ← Filter.readsIn_iff_holdsLate hr ho hs₀ hs hlater]
  constructor
  · rintro ⟨e', he', hhit⟩
    obtain ⟨hans, rfl⟩ := hit_ofEntry.mp hhit
    exact ⟨he', (Plan.answer_iff_readsIn hp hans).mp rfl⟩
  · rintro ⟨he, hreads⟩
    obtain ⟨b, hb⟩ := hclean (.ofEntry e) (List.mem_map_of_mem he)
    have hans : p.evaluator.answer s e.id (some e) = .ok b := hb
    obtain rfl := (Plan.answer_iff_readsIn hp hans).mpr hreads
    exact ⟨e, he, hit_ofEntry.mpr ⟨hans, rfl⟩⟩

/-! ### When a late evaluation says what an evaluation in time would -/

/-- No assertion of the filter has an index. -/
def Filter.Unindexed (s : Store) (r : Registry) (f : Filter) : Prop :=
  ∀ a : Assertion, Filter.Part (.assertion a) f → ∀ l, Leaf.bind s r a = .ok l → l.index = none

/-- The stores have the same indexes, with whatever contents. -/
def Store.SameIndexes (s m : Store) : Prop :=
  s.indexes.map AttributeIndex.bare = m.indexes.map AttributeIndex.bare

instance (s m : Store) : Decidable (s.SameIndexes m) :=
  inferInstanceAs <| Decidable <|
    s.indexes.map AttributeIndex.bare = m.indexes.map AttributeIndex.bare

/-- The values of the entry are overt, whatever their type. -/
def Entry.AllOvert (r : Registry) (e : Entry) : Prop :=
  ∀ t ∈ r.types, ∀ rule, t.equality = some rule → e.Overt r t rule

/-- The same indexes are picked to answer the same assertions. -/
theorem Leaf.index_bound_eq {t : AttributeType} {cond : Condition} (h : s.SameIndexes m) :
    (Leaf.bound s r t cond).index = (Leaf.bound m r t cond).index := by
  have hbare : ∀ s : Store, (Leaf.bound s r t cond).index =
      ((((s.indexes.map AttributeIndex.bare).find? fun ix => ix.attr.isKnownAs t.oid).filter
        fun ix => ix.includesSubtypes || (r.subtypes t).isEmpty).filter cond.compatible).map
          AttributeIndex.attr := fun s => by
    rw [List.find?_map, Option.filter_map, Option.filter_map, Option.map_map]
    rfl
  rw [hbare s, hbare m, h]

/-- While no index is added, a late reading is a reading in time. -/
theorem Filter.readsIn_of_sameIndexes (hsame : s.SameIndexes s₀) (h : f.ReadsIn r s₀ s e) :
    f.ReadsIn r s s e := by
  refine (Filter.holds_congr (fun a => ?_) f).mp h
  have hbound : ∀ t c, (Leaf.bound s₀ r t c).Reads s e ↔ (Leaf.bound s r t c).Reads s e := by
    intro t c
    rw [Leaf.Reads, Leaf.Reads, Leaf.index?, Leaf.index?, Leaf.index_bound_eq hsame]
    rfl
  rw [Leaf.exists_bind_congr fun t _ c _ => hbound t c,
    Leaf.exists_bind_congr fun t _ c _ => Iff.rfl]

/-- Without indexes, the entry at hand is read alike in all stores. -/
theorem Filter.readsIn_of_unindexed (hnone : f.Unindexed s₀ r) (h : f.ReadsIn r s₀ s e) :
    f.ReadsIn r s₀ s₀ e := by
  refine (Filter.holds_congr_of_part (fun a ha => ?_)).mp h
  refine exists_congr fun l => and_congr_right fun hl => ?_
  rw [Leaf.Reads, Leaf.Reads, Leaf.index?, Leaf.index?, hnone a ha l hl]
  rfl

/-! ### Searches that go on -/

/-- The entry was stored in this form and accepted by the filter at one of the moments. -/
def AcceptedDuring (r : Registry) (f : Filter) (moments : List Store) (e : Entry) : Prop :=
  ∃ m ∈ moments, m.Accepts r f e

/-- **What a search hands out while the store changes.** The entry was stored in that form at some
moment since the opening, and the filter holds of it in the mixed reading. If its values are overt,
it was accepted at some moment exactly if it meets the filter itself. It was accepted for sure if
the plan is bounded or the entry is still stored as it was, while its values are overt or no index
has been added; and in a full scan that has no index for any assertion. -/
theorem SearchRun.accepted_iff (hr : r.Built) (ho : r.LowercaseOids) (hs₀ : s₀.Reachable r)
    (hp : Plan.build s₀ r f = .ok p)
    (run : SearchRun r s₀ (.start s₀ p.candidates p.evaluator limit) past s c)
    (hnext : (c.next s).1 = .ok (some e)) :
    (∃ m ∈ s :: past, m.entry? e.id = some e) ∧
      f.Holds (Assertion.HoldsLate r s₀ s e) ∧
      (e.AllOvert r → (AcceptedDuring r f (s :: past) e ↔ e.Meets r f)) ∧
      (p.candidates.isBounded = true ∨ s.entry? e.id = some e →
        e.AllOvert r ∨ s.SameIndexes s₀ → AcceptedDuring r f (s :: past) e) ∧
      (p.candidates.isBounded = false → f.Unindexed s₀ r → AcceptedDuring r f (s :: past) e) := by
  have hkept := run.kept hs₀
  obtain ⟨hs, hlater⟩ := hkept.moments s (by simp)
  obtain ⟨hans, hbounded, hfull⟩ := run.answer_of_next hs₀ hnext
  -- the assertions were bound at the opening, and are read now
  have hreads : f.ReadsIn r s₀ s e := (Plan.answer_iff_readsIn hp hans).mp rfl
  have hmoment : ∃ m ∈ s :: past, m.entry? e.id = some e := by
    cases hb : p.candidates.isBounded with
    | true => exact ⟨s, by simp, hbounded hb⟩
    | false => exact ⟨s₀, hkept.opening, hfull hb⟩
  refine ⟨hmoment, ?_, ?_, ?_, ?_⟩
  · exact (Filter.readsIn_iff_holdsLate hr ho hs₀ hs hlater).mp hreads
  · intro hovert
    have hmeets : ∀ m ∈ s :: past, m.entry? e.id = some e → (f.ReadsIn r m m e ↔ e.Meets r f) := by
      intro m hm he
      have hreach := (hkept.moments m hm).1
      exact Filter.readsIn_iff_meets hr ho hreach hreach (.refl m) he fun t ht _ _ => hovert t ht
    constructor
    · rintro ⟨m, hm, he, hacc⟩
      exact (hmeets m hm he).mp hacc
    · intro h
      obtain ⟨m, hm, he⟩ := hmoment
      exact ⟨m, hm, he, (hmeets m hm he).mpr h⟩
  · intro hstored hcase
    have he : s.entry? e.id = some e := hstored.elim hbounded id
    refine ⟨s, by simp, he, ?_⟩
    rcases hcase with hovert | hsame
    · have hmeets : e.Meets r f := (Filter.readsIn_iff_meets hr ho hs₀ hs hlater he
        fun t ht _ _ => hovert t ht).mp hreads
      exact (Filter.readsIn_iff_meets hr ho hs hs (.refl s) he
        fun t ht _ _ => hovert t ht).mpr hmeets
    · exact Filter.readsIn_of_sameIndexes hsame hreads
  · intro hscan hnone
    exact ⟨s₀, hkept.opening, hfull hscan, Filter.readsIn_of_unindexed hnone hreads⟩

/-- An entry that stays while another one goes is handed out, and was accepted. -/
theorem SearchRun.accepted_iff_after_deletion :
    let s₀ := (Store.new "people").performAll .people
      [.addIndex "cn" false, .addEntry (.named 1 "Alice"), .addEntry (.named 2 "Bob")]
    let f := Filter.not (.assertion (.equality "cn" "Eve"))
    let s := (s₀.deleteEntry 2).2
    ∃ p, Plan.build s₀ .people f = .ok p ∧ p.candidates.isBounded = false ∧
      ∃ c, SearchRun .people s₀ (.start s₀ p.candidates p.evaluator none) [s₀] s c ∧
        (c.next s).1 = .ok (some (.named 1 "Alice")) ∧
        AcceptedDuring .people f [s, s₀] (.named 1 "Alice") := by
  intro s₀ f s
  have hs₀ : s₀.Reachable .people := (Store.Reachable.new "people").performAll _
  have hplan : ∃ p, Plan.build s₀ .people f = .ok p ∧ p.candidates.isBounded = false ∧
      ((SearchCursor.start s₀ p.candidates p.evaluator none).next s).1 =
        .ok (some (.named 1 "Alice")) :=
    exists_eq_ok_of_decide (by decide +kernel)
  obtain ⟨p, hp, hfull, hnext⟩ := hplan
  have run : SearchRun .people s₀ (.start s₀ p.candidates p.evaluator none) [s₀] s _ :=
    .write (.deleteEntry 2) .opened rfl
  have hstored : s.entry? 1 = some (.named 1 "Alice") := by decide +kernel
  have hsame : s.SameIndexes s₀ := by decide +kernel
  obtain ⟨-, -, -, hacc, -⟩ :=
    SearchRun.accepted_iff Registry.built_people Registry.lowercaseOids_people hs₀ hp run hnext
  exact ⟨p, hp, hfull, _, run, hnext, hacc (.inr hstored) (.inr hsame)⟩

/-- A full scan for those that are not called by some name. The entry with this name is deleted
before its turn comes. Its index has forgotten it by then, so that it is handed out, though no
search at any moment finds anything. -/
theorem exists_handed_out_though_never_accepted :
    let e := Entry.named 1 "Alice"
    let s₀ := (Store.new "people").performAll .people [.addIndex "cn" false, .addEntry e]
    let q : SearchRequest := ⟨.not (.assertion (.equality "cn" "alice")), none⟩
    let s := (s₀.deleteEntry 1).2
    ∃ p, Plan.build s₀ .people q.filter = .ok p ∧
      ∃ c, SearchRun .people s₀ (.start s₀ p.candidates p.evaluator none) [s₀] s c ∧
        (c.next s).1 = .ok (some e) ∧ (∀ m ∈ [s, s₀], q.Finds m .people none []) ∧
        ¬ AcceptedDuring .people q.filter [s, s₀] e := by
  intro e s₀ q s
  have hs₀ : s₀.Reachable .people := (Store.Reachable.new "people").performAll _
  have hs : s.Reachable .people := hs₀.write (.deleteEntry 1) rfl
  have hplan : ∃ p, Plan.build s₀ .people q.filter = .ok p ∧
      ((SearchCursor.start s₀ p.candidates p.evaluator none).next s).1 = .ok (some e) ∧
      Clean p.evaluator s₀ (p.candidates.stream s₀).rest ∧
      (p.candidates.stream s₀).rest.filterMap (Candidate.hit p.evaluator s₀) = [] :=
    exists_eq_ok_of_decide (by decide +kernel)
  have hlate : ∃ p, Plan.build s .people q.filter = .ok p ∧
      Clean p.evaluator s (p.candidates.stream s).rest ∧
      (p.candidates.stream s).rest.filterMap (Candidate.hit p.evaluator s) = [] :=
    exists_eq_ok_of_decide (by decide +kernel)
  obtain ⟨p, hp, hnext, hclean⟩ := hplan
  obtain ⟨p', hp', hclean'⟩ := hlate
  have run : SearchRun .people s₀ (.start s₀ p.candidates p.evaluator none) [s₀] s _ :=
    .write (.deleteEntry 1) .opened rfl
  have hnothing : ∀ m ∈ [s, s₀], m.Reachable .people ∧ q.Finds m .people none [] := by
    refine List.forall_mem_cons.mpr ⟨⟨hs, ?_⟩, List.forall_mem_singleton.mpr ⟨hs₀, ?_⟩⟩
    · exact (SearchRequest.finds_iff (.inl rfl) hp').mpr hclean'
    · exact (SearchRequest.finds_iff (.inl rfl) hp).mpr hclean
  refine ⟨p, hp, _, run, hnext, fun m hm => (hnothing m hm).2, ?_⟩
  rintro ⟨m, hm, hacc⟩
  obtain ⟨hreach, hfinds⟩ := hnothing m hm
  exact absurd ((hfinds.mem_iff hreach.synced (.inl rfl)).mpr hacc) List.not_mem_nil

end Directory
