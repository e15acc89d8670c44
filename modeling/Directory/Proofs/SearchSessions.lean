import Directory.Proofs.Draining
import Directory.Proofs.StoreSync
import Mathlib.Data.List.Induction

/-!
# Searches as state machines

A search has been opened, and anything may happen to it: it is asked for the next entry, it is
closed, and the store changes under it, in any order. `SearchSession` keeps the store, the cursor
and the answers that there have been.

* Every event preserves that the candidates to come are behind all that has been handed out
  (`SearchSession.Ordered`). For this it is enough that the store keeps entries under their own ids,
  whatever else happens to it.
* Every event preserves that the counters and flags of the cursor agree with the answers
  (`SearchSession.Tallied`).
* A closed cursor does not change any more (`run_of_closed`), and nothing closes it but its end, a
  failure, and closing it (`closed_run_opened`).
-/

namespace Directory

variable {r : Registry} {s s' : Store} {ev : Evaluator} {cs : List Candidate} {e : Entry}

/-! ### Entries under their own ids -/

/-- The store keeps each entry under its own id. -/
def Store.Keyed (s : Store) : Prop := ∀ b ∈ s.entries.toList, b.1 = b.2.id

namespace Store

theorem Reachable.keyed (h : s.Reachable r) : s.Keyed := h.synced.ids

theorem Keyed.apply (h : s.Keyed) {w : StoreWrite} (hw : w.apply r s = .ok s') : s'.Keyed := by
  cases w with
  | addIndex attr includesSubtypes =>
    obtain ⟨t, ix, -, -, -, keys, -, rfl⟩ := addIndex_eq_ok_iff.mp hw
    exact h
  | addEntry e =>
    obtain ⟨-, -, keys, -, rfl⟩ := addEntry_eq_ok_iff.mp hw
    intro b hb
    rcases SortedMap.mem_insert.mp hb with ⟨hid, he⟩ | ⟨-, hb⟩
    · rw [hid, he]
    · exact h b hb
  | deleteEntry id =>
    cases hw
    exact fun b hb => h b (SortedMap.mem_erase.mp hb).1

theorem Keyed.perform (h : s.Keyed) (r : Registry) (w : StoreWrite) : (w.perform r s).Keyed := by
  rw [StoreWrite.perform]
  split
  · next s' hw => exact h.apply hw
  · exact h

end Store

/-- If the candidate has its entry at hand, it is the one with its id. -/
def Candidate.Own (c : Candidate) : Prop := ∀ e, c.entry = some e → e.id = c.id

/-- A candidate contributes no entry but the one with its id. -/
theorem Candidate.Own.id_of_hit {c : Candidate} (hc : c.Own) (hs : s.Keyed)
    (h : c.hit ev s = some e) : e.id = c.id := by
  have hview : c.entry.or (s.entry? c.id) = some e := (hit_eq_some_iff.mp h).2
  cases hentry : c.entry with
  | some e' =>
    rw [hentry] at hview
    cases hview
    exact hc e hentry
  | none =>
    rw [hentry] at hview
    exact (hs _ (Store.entry?_eq_some_iff.mp hview)).symm

/-- The candidates at an opening are in ascending order, and have their own entries. -/
theorem Candidates.stream_ascending (hs : s.Keyed) (candidates : Candidates) :
    (candidates.stream s).rest.Pairwise (fun a b => a.id < b.id) ∧
      ∀ c ∈ (candidates.stream s).rest, c.Own := by
  cases candidates with
  | bounded ids =>
    refine ⟨?_, fun c hc => ?_⟩
    · exact List.pairwise_map.mpr (ids.ascending.imp fun h => Std.compare_eq_lt.mp h)
    · obtain ⟨id, -, rfl⟩ := List.mem_map.mp hc
      exact fun e he => nomatch he
  | unbounded =>
    refine ⟨?_, fun c hc => ?_⟩
    · simp only [stream, SortedMap.values, List.pairwise_map]
      refine s.entries.ascending.imp_of_mem fun {a b} ha hb hab => ?_
      have hlt : a.1 < b.1 := Std.compare_eq_lt.mp hab
      rwa [hs a ha, hs b hb] at hlt
    · obtain ⟨e, -, rfl⟩ := List.mem_map.mp hc
      exact fun e' he => (Option.some.inj he) ▸ rfl

/-- A match has been looked at. -/
theorem NextMatch.looked_pos (h : (find ev s cs).outcome = .ok (some e)) :
    0 < (find ev s cs).looked := by
  cases cs with
  | nil => cases h
  | cons c cs =>
    rw [find_cons]
    cases ev.answer s c.id (c.view s) with
    | error err => exact Nat.one_pos
    | ok b =>
      cases c.hit ev s with
      | some e => exact Nat.one_pos
      | none => exact Nat.succ_pos _

/-! ### Sessions -/

/-- What may happen after a search has been opened. -/
inductive SearchEvent where
  /-- The store is written to. A refused write leaves it as it is. -/
  | write (r : Registry) (w : StoreWrite)
  | next
  | close
  deriving DecidableEq

/-- What a call for the next entry comes to. -/
abbrev SearchAnswer := Except SearchError (Option Entry)

namespace SearchAnswer

/-- The entry that is handed out. -/
def entry? : SearchAnswer → Option Entry
  | .ok found => found
  | .error _ => none

/-- The failure that is reported. -/
def failure? : SearchAnswer → Option SearchError
  | .ok _ => none
  | .error err => some err

end SearchAnswer

/-- An opened search: the store and the cursor as they are now, and the answers so far. -/
structure SearchSession where
  store : Store
  cursor : SearchCursor
  answers : List SearchAnswer := []

namespace SearchSession

/-- A search that has just been opened. -/
def opened (s : Store) (candidates : Candidates) (ev : Evaluator) (limit : Option UInt64) :
    SearchSession :=
  { store := s, cursor := .start s candidates ev limit }

/-- The session after an event. -/
def step (x : SearchSession) : SearchEvent → SearchSession
  | .write r w => { x with store := w.perform r x.store }
  | .next =>
    { x with
      cursor := (x.cursor.next x.store).2
      answers := x.answers ++ [(x.cursor.next x.store).1] }
  | .close => { x with cursor := x.cursor.close }

/-- The session after several events. -/
def run (x : SearchSession) (events : List SearchEvent) : SearchSession := events.foldl step x

theorem run_append (x : SearchSession) (events : List SearchEvent) (event : SearchEvent) :
    x.run (events ++ [event]) = (x.run events).step event := by
  rw [run, List.foldl_append]
  rfl

/-- The entries that have been handed out. -/
def yielded (x : SearchSession) : List Entry := x.answers.filterMap SearchAnswer.entry?

/-- The failures that have been reported. -/
def failures (x : SearchSession) : List SearchError := x.answers.filterMap SearchAnswer.failure?

variable {x : SearchSession}

theorem yielded_answered (s : Store) (c : SearchCursor) (answers : List SearchAnswer)
    (a : SearchAnswer) : yielded ⟨s, c, answers ++ [a]⟩ =
      yielded ⟨s, c, answers⟩ ++ a.entry?.toList := by
  rw [yielded, List.filterMap_append, yielded]
  cases h : a.entry? <;> simp [h]

theorem yielded_of_no_entry {c : SearchCursor} {a : SearchAnswer} (ha : a.entry? = none) :
    yielded ⟨x.store, c, x.answers ++ [a]⟩ = x.yielded := by
  rw [yielded_answered, ha]
  exact List.append_nil _

theorem failures_answered (s : Store) (c : SearchCursor) (answers : List SearchAnswer)
    (a : SearchAnswer) : failures ⟨s, c, answers ++ [a]⟩ =
      failures ⟨s, c, answers⟩ ++ a.failure?.toList := by
  rw [failures, List.filterMap_append, failures]
  cases h : a.failure? <;> simp [h]

theorem failures_of_no_failure {c : SearchCursor} {a : SearchAnswer} (ha : a.failure? = none) :
    failures ⟨x.store, c, x.answers ++ [a]⟩ = x.failures := by
  rw [failures_answered, ha]
  exact List.append_nil _

/-- What every event preserves holds after every run. -/
theorem run_induction {P : SearchSession → Prop} (hstep : ∀ x event, P x → P (x.step event))
    (hx : P x) (events : List SearchEvent) : P (x.run events) := by
  induction events generalizing x with
  | nil => exact hx
  | cons event events ih => exact ih (hstep x event hx)

theorem sizeLimit_run (x : SearchSession) (events : List SearchEvent) :
    (x.run events).cursor.sizeLimit = x.cursor.sizeLimit := by
  refine run_induction (P := fun y => y.cursor.sizeLimit = x.cursor.sizeLimit) ?_ rfl events
  intro y event hy
  cases event with
  | next => exact (y.cursor.next_sizeLimit y.store).trans hy
  | _ => exact hy

/-! ### The order of the entries -/

/-- The candidates to come are in ascending order and behind all that has been handed out, and they
stand for no entries but their own. -/
structure Ordered (x : SearchSession) : Prop where
  keyed : x.store.Keyed
  ascending : x.yielded.Pairwise fun a b => a.id < b.id
  pending : x.cursor.pending.Pairwise fun a b => a.id < b.id
  ahead : ∀ e ∈ x.yielded, ∀ c ∈ x.cursor.pending, e.id < c.id
  own : ∀ c ∈ x.cursor.pending, c.Own

theorem ordered_opened (hs : s.Keyed) (candidates : Candidates) (ev : Evaluator)
    (limit : Option UInt64) : (opened s candidates ev limit).Ordered where
  keyed := hs
  ascending := .nil
  pending := (Candidates.stream_ascending hs candidates).1
  ahead _ he := absurd he List.not_mem_nil
  own := (Candidates.stream_ascending hs candidates).2

/-- Candidates may be dropped. -/
theorem Ordered.drop (h : x.Ordered) {y : SearchSession} (hstore : y.store = x.store)
    (hyielded : y.yielded = x.yielded) (hpending : y.cursor.pending.Sublist x.cursor.pending) :
    y.Ordered where
  keyed := hstore ▸ h.keyed
  ascending := hyielded ▸ h.ascending
  pending := h.pending.sublist hpending
  ahead e he c hc := h.ahead e (hyielded ▸ he) c (hpending.subset hc)
  own c hc := h.own c (hpending.subset hc)

/-- A match that is handed out is the entry of the first candidate that was not passed over. -/
theorem Ordered.found (h : x.Ordered) {st : CandidateStream} (hst : x.cursor.stream = some st)
    (hfound : (NextMatch.find x.cursor.evaluator x.store st.rest).outcome = .ok (some e))
    {y : SearchSession} (hstore : y.store = x.store) (hyielded : y.yielded = x.yielded ++ [e])
    (hpending : y.cursor.pending =
      (NextMatch.find x.cursor.evaluator x.store st.rest).rest) : y.Ordered := by
  obtain ⟨before, c, hrest, -, -, hhit⟩ := NextMatch.find_some hfound
  rw [← hpending] at hrest
  -- the candidates that were there: those passed over, the one handed out, and those to come
  have hsplit : x.cursor.pending = before ++ c :: y.cursor.pending :=
    (SearchCursor.pending_eq hst).trans hrest
  have hc : c ∈ x.cursor.pending := by simp [hsplit]
  have hsub : ∀ b ∈ y.cursor.pending, b ∈ x.cursor.pending := fun b hb => by simp [hsplit, hb]
  have hid : e.id = c.id := (h.own c hc).id_of_hit h.keyed hhit
  have hsorted := h.pending
  rw [hsplit] at hsorted
  obtain ⟨hbehind, hlater⟩ := List.pairwise_cons.mp (List.pairwise_append.mp hsorted).2.1
  refine
    { keyed := hstore ▸ h.keyed
      ascending := ?_
      pending := hlater
      ahead := ?_
      own := fun b hb => h.own b (hsub b hb) }
  · rw [hyielded]
    refine List.pairwise_append.mpr ⟨h.ascending, List.pairwise_singleton _ e, fun a ha b hb => ?_⟩
    obtain rfl := List.mem_singleton.mp hb
    exact hid ▸ h.ahead a ha c hc
  · intro a ha b hb
    rw [hyielded] at ha
    rcases List.mem_append.mp ha with ha | ha
    · exact h.ahead a ha b (hsub b hb)
    · obtain rfl := List.mem_singleton.mp ha
      exact hid ▸ hbehind b hb

theorem Ordered.step (h : x.Ordered) (event : SearchEvent) : (x.step event).Ordered := by
  cases event with
  | write r w => exact { h with keyed := h.keyed.perform r w }
  | close => exact h.drop rfl rfl (List.nil_sublist _)
  | next =>
    have hcase := x.cursor.next_case x.store
    unfold SearchSession.step
    generalize x.cursor.next x.store = answer at hcase
    cases hcase with
    | closed => exact h.drop rfl (yielded_of_no_entry rfl) (List.Sublist.refl _)
    | failed => exact h.drop rfl (yielded_of_no_entry rfl) (List.nil_sublist _)
    | exhausted => exact h.drop rfl (yielded_of_no_entry rfl) (List.nil_sublist _)
    | limited => exact h.drop rfl (yielded_of_no_entry rfl) (List.nil_sublist _)
    | found hst hfound => exact h.found hst hfound rfl (yielded_answered ..) rfl

/-! ### Counters and flags -/

/-- The counters and flags of the cursor agree with the answers, and a failure leaves the cursor
closed. -/
structure Tallied (x : SearchSession) : Prop where
  returned : x.cursor.returned = x.yielded.length
  scanned : x.cursor.returned ≤ x.cursor.scanned
  limit : ∀ n, x.cursor.sizeLimit = some n → x.cursor.returned ≤ n
  reached : x.cursor.limitReached = true → x.cursor.stream = none ∧
    x.cursor.sizeLimit = some x.cursor.returned ∧ x.cursor.returned < x.cursor.scanned
  failed : x.failures.length ≤ 1
  sound : x.cursor.stream ≠ none → x.failures = []

theorem tallied_opened (s : Store) (candidates : Candidates) (ev : Evaluator)
    (limit : Option UInt64) : (opened s candidates ev limit).Tallied where
  returned := rfl
  scanned := Nat.le_refl 0
  limit _ _ := Nat.zero_le _
  reached h := nomatch h
  failed := Nat.zero_le 1
  sound _ := rfl

/-- An answer that closes an open cursor. It can be a failure, the first one. -/
theorem Tallied.ended (h : x.Tallied) (hopen : x.cursor.stream ≠ none) {d : SearchCursor}
    {a : SearchAnswer} (ha : a.entry? = none) (hclosed : d.stream = none)
    (hreturned : d.returned = x.cursor.returned) (hscanned : x.cursor.scanned ≤ d.scanned)
    (hlimit : d.sizeLimit = x.cursor.sizeLimit)
    (hreached : d.limitReached = true →
      d.sizeLimit = some d.returned ∧ d.returned < d.scanned) :
    Tallied ⟨x.store, d, x.answers ++ [a]⟩ where
  returned := by
    rw [yielded_of_no_entry ha]
    exact hreturned.trans h.returned
  scanned := by
    show d.returned ≤ d.scanned
    rw [hreturned]
    exact Nat.le_trans h.scanned hscanned
  limit n hn := by
    show d.returned ≤ n
    rw [hreturned]
    exact h.limit n (hlimit ▸ hn)
  reached hr := ⟨hclosed, hreached hr⟩
  failed := by
    have hfirst : failures ⟨x.store, d, x.answers⟩ = [] := h.sound hopen
    rw [failures_answered, hfirst, List.nil_append]
    cases a.failure? <;> simp
  sound hd := absurd hclosed hd

/-- A match is handed out where the limit leaves room. -/
theorem Tallied.found (h : x.Tallied) (hopen : x.cursor.stream ≠ none)
    (hroom : x.cursor.atLimit = false) {d : SearchCursor}
    (hreturned : d.returned = x.cursor.returned + 1) (hscanned : x.cursor.scanned < d.scanned)
    (hlimit : d.sizeLimit = x.cursor.sizeLimit)
    (hreached : d.limitReached = x.cursor.limitReached) :
    Tallied ⟨x.store, d, x.answers ++ [.ok (some e)]⟩ where
  returned := by
    rw [yielded_answered]
    show d.returned = (x.yielded ++ [e]).length
    rw [List.length_append, ← h.returned]
    exact hreturned
  scanned := by
    have := h.scanned
    show d.returned ≤ d.scanned
    omega
  limit n hn := by
    show d.returned ≤ n
    rw [hreturned]
    exact SearchCursor.atLimit_eq_false_iff.mp hroom n (hlimit ▸ hn)
  reached hr := absurd (h.reached (hreached ▸ hr)).1 hopen
  failed := by
    rw [failures_of_no_failure rfl]
    exact h.failed
  sound _ := by
    rw [failures_of_no_failure rfl]
    exact h.sound hopen

theorem Tallied.next (h : x.Tallied) : (x.step .next).Tallied := by
  have hunset : x.cursor.stream ≠ none → x.cursor.limitReached = true → False :=
    fun hopen hreached => hopen (h.reached hreached).1
  have hcase := x.cursor.next_case x.store
  unfold SearchSession.step
  generalize x.cursor.next x.store = answer at hcase
  cases hcase with
  | closed hst =>
    exact
      { h with
        returned := by rw [yielded_of_no_entry rfl]; exact h.returned
        failed := by rw [failures_of_no_failure rfl]; exact h.failed
        sound := fun hopen => absurd hst hopen }
  | failed hst =>
    have hopen : x.cursor.stream ≠ none := by simp [hst]
    exact h.ended hopen rfl rfl rfl (Nat.le_add_right _ _) rfl fun hr => (hunset hopen hr).elim
  | exhausted hst =>
    have hopen : x.cursor.stream ≠ none := by simp [hst]
    exact h.ended hopen rfl rfl rfl (Nat.le_add_right _ _) rfl fun hr => (hunset hopen hr).elim
  | limited hst hfound hfull =>
    obtain ⟨limit, hlimit, hle⟩ := SearchCursor.atLimit_iff.mp hfull
    obtain rfl : limit = x.cursor.returned := Nat.le_antisymm hle (h.limit limit hlimit)
    have hlooked := NextMatch.looked_pos hfound
    refine h.ended (by simp [hst]) rfl rfl rfl (Nat.le_add_right _ _) rfl fun _ => ⟨hlimit, ?_⟩
    exact Nat.lt_of_le_of_lt h.scanned (Nat.lt_add_of_pos_right hlooked)
  | found hst hfound hroom =>
    have hlooked := NextMatch.looked_pos hfound
    exact h.found (by simp [hst]) hroom rfl (Nat.lt_add_of_pos_right hlooked) rfl rfl

theorem Tallied.step (h : x.Tallied) (event : SearchEvent) : (x.step event).Tallied := by
  cases event with
  | write r w => exact { h with }
  | next => exact h.next
  | close =>
    exact
      { h with
        reached := fun hreached => ⟨rfl, (h.reached hreached).2⟩
        sound := fun hopen => absurd rfl hopen }

/-! ### Closing -/

/-- A closed cursor stays as it is, and answers every call with no entry. -/
theorem run_of_closed (h : x.cursor.stream = none) (events : List SearchEvent) :
    (x.run events).cursor = x.cursor ∧
      (x.run events).answers = x.answers ++ List.replicate (events.count .next) (.ok none) := by
  induction events generalizing x with
  | nil => exact ⟨rfl, (List.append_nil _).symm⟩
  | cons event events ih =>
    have hstep : (x.step event).cursor = x.cursor ∧
        (x.step event).answers = x.answers ++ List.replicate ([event].count .next) (.ok none) := by
      cases event with
      | write r w => exact ⟨rfl, (List.append_nil _).symm⟩
      | next => simp [step, SearchCursor.next_of_closed h]
      | close => exact ⟨by simp [step, SearchCursor.close, ← h], (List.append_nil _).symm⟩
    obtain ⟨hcursor, hanswers⟩ := hstep
    obtain ⟨hrun, hall⟩ := ih (hcursor ▸ h)
    refine ⟨hrun.trans hcursor, hall.trans ?_⟩
    rw [hanswers, List.append_assoc, ← List.replicate_add, ← List.count_append]
    rfl

/-- A cursor is closed because it was told to, or because a call has ended the search. -/
theorem closed_run_opened (s : Store) (candidates : Candidates) (ev : Evaluator)
    (limit : Option UInt64) (events : List SearchEvent) :
    ((opened s candidates ev limit).run events).cursor.stream = none ↔
      .close ∈ events ∨
        ∃ a ∈ ((opened s candidates ev limit).run events).answers, ∀ e, a ≠ .ok (some e) := by
  induction events using List.reverseRecOn with
  | nil => simp [run, opened, SearchCursor.start]
  | append_singleton events event ih =>
    rw [run_append]
    generalize (opened s candidates ev limit).run events = x at ih
    cases event with
    | write r w => simpa [step] using ih
    | close => simp [step, SearchCursor.close]
    | next =>
      have hended : (x.step .next).cursor.stream = none ↔
          ∀ e, (x.cursor.next x.store).1 ≠ .ok (some e) := x.cursor.next_closed_iff x.store
      have hstays : x.cursor.stream = none → (x.step .next).cursor.stream = none := fun h =>
        hended.mpr (by simp [SearchCursor.next_of_closed h])
      simp only [step, List.mem_append, List.mem_singleton, reduceCtorEq, or_false, or_and_right,
        exists_or, exists_eq_left, ← or_assoc, ← ih, ← hended]
      exact ⟨.inr, fun h => h.elim hstays id⟩

/-- **What holds of a search whatever happens to it.** Under any calls and any writes, entries are
handed out in strictly ascending order of their ids, and the cursor has counted them, each after it
was looked at. They are no more than the limit allows, and where it counts as reached, the cursor is
closed, has handed out as many as it allows, and has looked at more. There is at most one failure.
The cursor is closed if it was told to, or a call has not handed out an entry, and not otherwise;
from then on it stays as it is, and every call answers with no entry. -/
theorem run_opened (hs : s.Keyed) (candidates : Candidates) (ev : Evaluator)
    (limit : Option UInt64) (events : List SearchEvent) :
    let x := (opened s candidates ev limit).run events
    x.yielded.Pairwise (fun a b => a.id < b.id) ∧
      x.cursor.returned = x.yielded.length ∧ x.cursor.returned ≤ x.cursor.scanned ∧
      (∀ n, limit = some n → n ≠ 0 → x.cursor.returned ≤ n.toNat) ∧
      (x.cursor.limitReached = true → x.cursor.isClosed = true ∧ ∃ n, limit = some n ∧ n ≠ 0 ∧
        x.cursor.returned = n.toNat ∧ n.toNat < x.cursor.scanned) ∧
      x.failures.length ≤ 1 ∧
      (x.cursor.isClosed = true ↔ .close ∈ events ∨ ∃ a ∈ x.answers, ∀ e, a ≠ .ok (some e)) ∧
      (x.cursor.isClosed = true → ∀ later, (x.run later).cursor = x.cursor ∧
        (x.run later).answers =
          x.answers ++ List.replicate (later.count .next) (.ok none)) := by
  intro x
  have hordered : x.Ordered := run_induction (fun _ event h => h.step event)
    (ordered_opened hs candidates ev limit) events
  have h : x.Tallied := run_induction (fun _ event h => h.step event)
    (tallied_opened s candidates ev limit) events
  have hclosed : x.cursor.isClosed = true ↔ x.cursor.stream = none := Option.isNone_iff_eq_none
  have hlimit : ∀ n, x.cursor.sizeLimit = some n ↔ ∃ w, limit = some w ∧ w ≠ 0 ∧ w.toNat = n := by
    intro n
    rw [sizeLimit_run]
    exact SearchCursor.sizeLimit_start s candidates ev
  refine ⟨hordered.ascending, h.returned, h.scanned, fun n hn hne => ?_, fun hreached => ?_,
    h.failed, ?_, fun hx later => run_of_closed (hclosed.mp hx) later⟩
  · exact h.limit n.toNat ((hlimit n.toNat).mpr ⟨n, hn, hne, rfl⟩)
  · obtain ⟨hend, hfull, hmore⟩ := h.reached hreached
    obtain ⟨n, hn, hne, hvalue⟩ := (hlimit _).mp hfull
    exact ⟨hclosed.mpr hend, n, hn, hne, hvalue.symm, hvalue ▸ hmore⟩
  · rw [hclosed]
    exact closed_run_opened s candidates ev limit events

/-- One candidate goes before its turn and one goes and comes back. The limit is reached with the
last one. -/
theorem run_opened_changing_store :
    let s := (Store.new "people").performAll .people
      [.addIndex "cn" false, .addEntry (.named 1 "Alice"), .addEntry (.named 2 "Bob"),
        .addEntry (.named 3 "Carol"), .addEntry (.named 4 "Dan")]
    let events : List SearchEvent :=
      [.write .people (.deleteEntry 1), .next, .write .people (.deleteEntry 3),
        .write .people (.addEntry (.named 3 "Eve")), .next, .next]
    ∃ p, Plan.build s .people (.assertion (.presence "cn")) = .ok p ∧
      let x := (opened s p.candidates p.evaluator (some 2)).run events
      x.yielded = [.named 2 "Bob", .named 3 "Eve"] ∧ x.cursor.limitReached = true ∧
        2 < x.cursor.scanned ∧
        (x.run [.next, .close, .next]).answers = x.answers ++ [.ok none, .ok none] := by
  intro s events
  have hs : s.Reachable .people := (Store.Reachable.new "people").performAll _
  have hplan : ∃ p, Plan.build s .people (.assertion (.presence "cn")) = .ok p ∧
      ((opened s p.candidates p.evaluator (some 2)).run events).yielded =
        [.named 2 "Bob", .named 3 "Eve"] ∧
      ((opened s p.candidates p.evaluator (some 2)).run events).cursor.limitReached = true :=
    exists_eq_ok_of_decide (by decide +kernel)
  obtain ⟨p, hp, hyielded, hreached⟩ := hplan
  obtain ⟨-, -, -, -, hlimit, -, -, hrest⟩ :=
    run_opened hs.keyed p.candidates p.evaluator (some 2) events
  obtain ⟨hclosed, n, hn, -, -, hmore⟩ := hlimit hreached
  cases hn
  exact ⟨p, hp, hyielded, hreached, hmore, (hrest hclosed _).2⟩

end SearchSession

end Directory
