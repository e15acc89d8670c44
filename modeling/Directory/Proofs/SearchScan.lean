import Directory.Proofs.Draining
import Directory.Proofs.LeafMeaning
import Directory.Proofs.Planning
import Directory.Proofs.StoreContents
import Directory.Search.Engine

/-!
# A planned search finds what a scan finds

A plan may take its candidates from the indexes, and evaluates only those. `search_eq_scan` says
that this makes no difference: on any store that writes lead to, a search without a limit hands out
the entries that the evaluator of the plan accepts when it is asked about each entry of the store in
turn, in the order of their ids.

* `mem_hits` and `hits_ascending` describe the hits of a candidate stream, bounded or not;
* `admits_of_answer` is the part of the planner: no accepted entry is left out;
* `SearchRequest.Finds` says that a search ends without a failure, and what it has handed out then.
-/

namespace Directory

variable {r : Registry} {s : Store} {ev : Evaluator} {f g : Filter} {p : Plan} {e : Entry}
  {id : EntryId}

/-- The evaluator accepts the entry with this id, of which nothing is known yet. -/
def Evaluator.accepts (ev : Evaluator) (s : Store) (id : EntryId) : Bool :=
  match (ev.evaluate s (.new id)).1 with
  | .ok b => b
  | .error _ => false

theorem Evaluator.accepts_iff :
    ev.accepts s id = true ↔ ev.answer s id (s.entry? id) = .ok true := by
  have h : (ev.evaluate s (.new id)).1 = ev.answer s id (s.entry? id) := ev.evaluate_fst s (.new id)
  rw [accepts, h]
  cases ev.answer s id (s.entry? id) <;> simp

/-! ### The hits of a candidate stream -/

namespace Store

theorem mem_values_iff (hs : s.Synced r) : e ∈ s.entries.values ↔ s.entry? e.id = some e := by
  rw [SortedMap.values, List.mem_map, entry?_eq_some_iff]
  constructor
  · rintro ⟨b, hb, rfl⟩
    rw [← hs.ids b hb]
    exact hb
  · intro h
    exact ⟨_, h, rfl⟩

theorem values_ascending (hs : s.Synced r) :
    s.entries.values.Pairwise fun a b => compare a.id b.id = .lt := by
  rw [SortedMap.values, List.pairwise_map]
  refine s.entries.ascending.imp_of_mem fun {a b} ha hb hab => ?_
  rwa [← hs.ids a ha, ← hs.ids b hb]

end Store

theorem hit_new : (Candidate.new id).hit ev s = some e ↔
    ev.answer s id (some e) = .ok true ∧ s.entry? id = some e := by
  rw [Candidate.hit_eq_some_iff, Candidate.view_new]
  constructor
  · rintro ⟨h, he⟩
    rw [he] at h
    exact ⟨h, he⟩
  · rintro ⟨h, he⟩
    rw [he]
    exact ⟨h, rfl⟩

theorem hit_ofEntry {e' : Entry} : (Candidate.ofEntry e').hit ev s = some e ↔
    ev.answer s e.id (some e) = .ok true ∧ e' = e := by
  rw [Candidate.hit_eq_some_iff, Candidate.view_ofEntry, Option.some.injEq]
  constructor <;> rintro ⟨h, rfl⟩ <;> exact ⟨h, rfl⟩

/-- The hits are the entries of the store that are candidates and match. -/
theorem mem_hits (hs : s.Synced r) {cs : Candidates} :
    e ∈ (cs.stream s).rest.filterMap (Candidate.hit ev s) ↔
      s.entry? e.id = some e ∧ cs.Admits e.id ∧ ev.answer s e.id (some e) = .ok true := by
  cases cs with
  | bounded ids =>
    simp only [Candidates.stream, List.filterMap_map, List.mem_filterMap, Function.comp, hit_new,
      Candidates.admits_bounded, SortedSet.mem_def]
    constructor
    · rintro ⟨id, hid, hans, he⟩
      obtain rfl : id = e.id := hs.ids _ (Store.entry?_eq_some_iff.mp he)
      exact ⟨he, hid, hans⟩
    · rintro ⟨he, hid, hans⟩
      exact ⟨e.id, hid, hans, he⟩
  | unbounded =>
    simp only [Candidates.stream, List.filterMap_map, List.mem_filterMap, Function.comp,
      hit_ofEntry, Candidates.admits_unbounded, true_and]
    rw [← Store.mem_values_iff hs]
    constructor
    · rintro ⟨e', he, hans, rfl⟩
      exact ⟨he, hans⟩
    · rintro ⟨he, hans⟩
      exact ⟨e, he, hans, rfl⟩

/-- An admitted entry of the store is behind one of the candidates. -/
theorem exists_candidate (hs : s.Synced r) {cs : Candidates} (he : s.entry? e.id = some e)
    (h : cs.Admits e.id) : ∃ c ∈ (cs.stream s).rest, c.id = e.id ∧ c.view s = some e := by
  cases cs with
  | bounded ids =>
    have hid : e.id ∈ ids.toList := Candidates.admits_bounded.mp h
    exact ⟨.new e.id, List.mem_map_of_mem hid, rfl, he⟩
  | unbounded =>
    exact ⟨.ofEntry e, List.mem_map_of_mem ((Store.mem_values_iff hs).mpr he), rfl, rfl⟩

theorem hits_ascending (hs : s.Synced r) (ev : Evaluator) (cs : Candidates) :
    ((cs.stream s).rest.filterMap (Candidate.hit ev s)).Pairwise
      fun a b => compare a.id b.id = .lt := by
  cases cs with
  | bounded ids =>
    rw [Candidates.stream, List.filterMap_map]
    refine ids.ascending.filterMap _ fun i j hij a ha b hb => ?_
    have ha := hs.ids _ (Store.entry?_eq_some_iff.mp (hit_new.mp ha).2)
    have hb := hs.ids _ (Store.entry?_eq_some_iff.mp (hit_new.mp hb).2)
    rwa [← ha, ← hb]
  | unbounded =>
    rw [Candidates.stream, List.filterMap_map]
    refine (Store.values_ascending hs).filterMap _ fun a' b' hab a ha b hb => ?_
    rwa [← (hit_ofEntry.mp ha).2, ← (hit_ofEntry.mp hb).2]

/-! ### What the planner keeps -/

/-- A plan admits the entries that its evaluator answers with yes. -/
theorem admits_of_answer (hs : s.Synced r) (hp : Plan.build s r f = .ok p) {seen : Option Entry}
    (h : p.evaluator.answer s id seen = .ok true) : p.candidates.Admits id := by
  -- the leaves that answered yes are among the candidates, and the tree carries this upwards
  have htruth : Evaluator.Truthful (fun l => l.answer s id seen = .ok true) s id seen :=
    fun l b hb => by simp only [hb, Except.ok.injEq]
  refine Plan.admits_of_holds ?_ hp ((Evaluator.holds_iff_of_answer htruth h).mp rfl)
  intro l hl ids hids
  obtain ⟨ix, hix⟩ := Leaf.exists_index_of_bounded hids
  simp only [Leaf.answer, hix] at hl
  exact (Leaf.mem_candidates_iff hs hix hids).mpr (Except.ok.inj hl)

/-! ### Searching without a limit -/

namespace SearchRequest

/-- The limit that applies to the request is none, or zero, which means none. -/
def Unlimited (q : SearchRequest) (defaultLimit : Option UInt64) : Prop :=
  q.sizeLimit.or defaultLimit = none ∨ q.sizeLimit.or defaultLimit = some 0

/-- The search ends without a failure and has then handed out these entries. -/
def Finds (q : SearchRequest) (s : Store) (r : Registry) (defaultLimit : Option UInt64)
    (es : List Entry) : Prop :=
  ∃ c, q.search s r defaultLimit = .ok c ∧ (c.drain s).failure = none ∧ (c.drain s).entries = es

variable {q : SearchRequest} {limit : Option UInt64} {es : List Entry}

/-- Searching is planning and opening the cursor of the plan. -/
theorem search_eq_ok_iff {c : SearchCursor} :
    q.search s r limit = .ok c ↔ ∃ p, Plan.build s r q.filter = .ok p ∧
      SearchCursor.start s p.candidates p.evaluator (q.sizeLimit.or limit) = c := by
  simp only [search, plan, map_eq_ok_iff]
  constructor
  · rintro ⟨_, ⟨p, hp, rfl⟩, rfl⟩
    exact ⟨p, hp, rfl⟩
  · rintro ⟨p, hp, rfl⟩
    exact ⟨_, ⟨p, hp, rfl⟩, rfl⟩

/-- An unlimited search hands out the hits of its candidates if it can evaluate them all. -/
theorem finds_iff (hq : q.Unlimited limit) (hp : Plan.build s r q.filter = .ok p) :
    q.Finds s r limit es ↔ Clean p.evaluator s (p.candidates.stream s).rest ∧
      (p.candidates.stream s).rest.filterMap (Candidate.hit p.evaluator s) = es := by
  have hlimit : (SearchCursor.start s p.candidates p.evaluator
      (q.sizeLimit.or limit)).sizeLimit = none := by
    rcases hq with hq | hq <;> rw [hq] <;> rfl
  have hfailure : _ ↔ Clean p.evaluator s (p.candidates.stream s).rest :=
    SearchCursor.drain_failure_iff hlimit rfl
  rw [← hfailure]
  constructor
  · rintro ⟨c, hc, hok, hentries⟩
    obtain ⟨p', hp', rfl⟩ := search_eq_ok_iff.mp hc
    obtain rfl : p = p' := Except.ok.inj (hp.symm.trans hp')
    exact ⟨hok, (SearchCursor.drain_entries hlimit rfl hok).symm.trans hentries⟩
  · rintro ⟨hok, hentries⟩
    exact ⟨_, search_eq_ok_iff.mpr ⟨p, hp, rfl⟩, hok,
      (SearchCursor.drain_entries hlimit rfl hok).trans hentries⟩

theorem Finds.exists_build (h : q.Finds s r limit es) : ∃ p, Plan.build s r q.filter = .ok p := by
  obtain ⟨c, hc, -⟩ := h
  obtain ⟨p, hp, -⟩ := search_eq_ok_iff.mp hc
  exact ⟨p, hp⟩

theorem Finds.ascending (hs : s.Synced r) (hq : q.Unlimited limit) (h : q.Finds s r limit es) :
    es.Pairwise fun a b => compare a.id b.id = .lt := by
  obtain ⟨p, hp⟩ := h.exists_build
  obtain ⟨-, rfl⟩ := (finds_iff hq hp).mp h
  exact hits_ascending hs p.evaluator p.candidates

/-- What an unlimited search finds are the entries that the store accepts. -/
theorem Finds.mem_iff (hs : s.Synced r) (hq : q.Unlimited limit) (h : q.Finds s r limit es) :
    e ∈ es ↔ s.Accepts r q.filter e := by
  obtain ⟨p, hp⟩ := h.exists_build
  obtain ⟨hclean, rfl⟩ := (finds_iff hq hp).mp h
  rw [mem_hits hs, Store.Accepts, Filter.ReadsIn, ← Plan.holds_evaluator_iff hp]
  refine and_congr_right fun he => ?_
  have htruth := Leaf.truthful_reads s e
  constructor
  · rintro ⟨-, hans⟩
    exact (Evaluator.holds_iff_of_answer htruth hans).mp rfl
  · intro hholds
    have hadmits : p.candidates.Admits e.id :=
      Plan.admits_of_holds (fun l hl => Leaf.admits_of_reads hs hl) hp hholds
    obtain ⟨c, hc, hid, hview⟩ := exists_candidate hs he hadmits
    obtain ⟨b, hb⟩ := hclean c hc
    rw [hid, hview] at hb
    have hb' : b = true := (Evaluator.holds_iff_of_answer htruth hb).mpr hholds
    exact ⟨hadmits, hb' ▸ hb⟩

end SearchRequest

/-- The candidates of a plan can be evaluated if the entries of the store can be. -/
theorem clean_stream (hs : s.Synced r)
    (hclean : ∀ e, s.entry? e.id = some e → ∃ b, ev.answer s e.id (some e) = .ok b)
    (cs : Candidates) : Clean ev s (cs.stream s).rest := by
  intro c hc
  cases cs with
  | bounded ids =>
    obtain ⟨id, -, rfl⟩ := List.mem_map.mp hc
    show ∃ b, ev.answer s id (s.entry? id) = .ok b
    cases he : s.entry? id with
    | none => exact ev.exists_answer_none s id
    | some e =>
      obtain rfl : id = e.id := hs.ids _ (Store.entry?_eq_some_iff.mp he)
      exact hclean e he
  | unbounded =>
    obtain ⟨e, he, rfl⟩ := List.mem_map.mp hc
    exact hclean e ((Store.mem_values_iff hs).mp he)

/-- An unlimited search finds something if the entries of the store can be evaluated. -/
theorem exists_finds (hs : s.Synced r) {q : SearchRequest} {limit : Option UInt64}
    (hq : q.Unlimited limit) (hp : Plan.build s r q.filter = .ok p)
    (hclean : ∀ e, s.entry? e.id = some e → ∃ b, p.evaluator.answer s e.id (some e) = .ok b) :
    ∃ es, q.Finds s r limit es :=
  ⟨_, (SearchRequest.finds_iff hq hp).mpr ⟨clean_stream hs hclean p.candidates, rfl⟩⟩

/-- **A search without a limit finds what a scan of the store finds.** If the evaluator of the plan
can be asked about every entry, the search ends without a failure and hands out the entries that
the evaluator accepts, in strictly ascending order of the ids; and in every part of the filter, a
bounded set of candidates has all ids that the evaluator of that part accepts. -/
theorem search_eq_scan (hs : s.Reachable r) (hp : Plan.build s r f = .ok p)
    (hclean : ∀ id e, s.entry? id = some e → ∃ b, (p.evaluator.evaluate s (.new id)).1 = .ok b) :
    (∀ (q : SearchRequest) (limit : Option UInt64), q.filter = f → q.Unlimited limit →
      q.Finds s r limit (s.entries.values.filter fun e => p.evaluator.accepts s e.id)) ∧
      ((s.entries.values.filter fun e => p.evaluator.accepts s e.id).map Entry.id).Pairwise
        (· < ·) ∧
      ∀ g : Filter, g.Part f → ∃ q, Plan.build s r g = .ok q ∧
        ∀ ids, q.candidates = .bounded ids →
          ∀ id, (q.evaluator.evaluate s (.new id)).1 = .ok true → id ∈ ids := by
  have hsync := hs.synced
  have hasc := (Store.values_ascending hsync).filter fun e => p.evaluator.accepts s e.id
  refine ⟨?_, ?_, ?_⟩
  · rintro q limit rfl hq
    have hall : ∀ e, s.entry? e.id = some e → ∃ b, p.evaluator.answer s e.id (some e) = .ok b := by
      intro e he
      obtain ⟨b, hb⟩ := hclean e.id e he
      rw [Evaluator.evaluate_fst, Candidate.view_new, he] at hb
      exact ⟨b, hb⟩
    rw [SearchRequest.finds_iff hq hp]
    refine ⟨clean_stream hsync hall p.candidates, ?_⟩
    refine eq_of_ascending (hits_ascending hsync p.evaluator p.candidates) hasc fun e => ?_
    rw [mem_hits hsync, List.mem_filter, Store.mem_values_iff hsync]
    refine and_congr_right fun he => ?_
    rw [Evaluator.accepts_iff, he]
    constructor
    · rintro ⟨-, hans⟩
      exact hans
    · intro hans
      exact ⟨admits_of_answer hsync hp hans, hans⟩
  · rw [List.pairwise_map]
    exact hasc.imp fun {a b} hab => compareOfLessAndEq_eq_lt.mp hab
  · intro g hg
    obtain ⟨q, hq⟩ := Plan.exists_build_of_part hg hp
    refine ⟨q, hq, fun ids hids id hid => ?_⟩
    rw [Evaluator.evaluate_fst] at hid
    exact admits_of_answer hsync hq hid ids hids

/-- A disjunction whose candidates come from a key and from a range of keys. -/
theorem search_eq_scan_disjunction :
    let s := (Store.new "people").performAll .people
      [.addEntry (.named 3 "Zoe"), .addEntry (.named 2 "Bob"), .addIndex "cn" false,
        .addEntry (.named 1 " ALICE ")]
    let f := Filter.or [.assertion (.greaterEq "cn" "carol"), .assertion (.equality "cn" "Alice")]
    (∃ p, Plan.build s .people f = .ok p ∧ p.candidates.isBounded = true) ∧
      SearchRequest.Finds ⟨f, none⟩ s .people none [.named 1 " ALICE ", .named 3 "Zoe"] := by
  intro s f
  have hs : s.Reachable .people := (Store.Reachable.new "people").performAll _
  have hrun : ∃ p, Plan.build s .people f = .ok p ∧ p.candidates.isBounded = true ∧
      (∀ b ∈ s.entries.toList, (p.evaluator.evaluate s (.new b.1)).1.isOk = true) ∧
      s.entries.values.filter (fun e => p.evaluator.accepts s e.id) =
        [.named 1 " ALICE ", .named 3 "Zoe"] :=
    exists_eq_ok_of_decide (by decide +kernel)
  obtain ⟨p, hp, hbounded, hclean, haccepted⟩ := hrun
  obtain ⟨hfinds, -⟩ := search_eq_scan hs hp fun id e he => by
    have hok := hclean (id, e) (Store.entry?_eq_some_iff.mp he)
    cases hev : (p.evaluator.evaluate s (.new id)).1 with
    | error err => rw [hev] at hok; cases hok
    | ok b => exact ⟨b, rfl⟩
  exact ⟨⟨p, hp, hbounded⟩, haccepted ▸ hfinds ⟨f, none⟩ none rfl (.inl rfl)⟩

end Directory
