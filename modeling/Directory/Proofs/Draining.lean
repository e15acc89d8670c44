import Directory.Proofs.Evaluation
import Directory.Search.Cursor

/-!
# What a cursor hands out

`Candidate.hit` is the entry that a candidate contributes to a search, if it contributes one. A
cursor without a size limit that is drained while the store stays as it is hands out the hits of its
candidates in their order, unless an evaluation fails; and it fails exactly when one of its
candidates cannot be evaluated (`drain_entries`, `drain_failure_iff`).

`SearchCursor.NextCase` lists what a single step can come to. What steps do to a cursor is read off
it, case by case.
-/

namespace Directory

variable {s : Store} {ev : Evaluator} {cs : List Candidate} {e : Entry}

/-- The entry behind the candidate, if it matches. -/
def Candidate.hit (ev : Evaluator) (s : Store) (c : Candidate) : Option Entry :=
  match ev.answer s c.id (c.view s) with
  | .ok true => c.view s
  | _ => none

theorem Candidate.hit_eq_some_iff {c : Candidate} :
    c.hit ev s = some e ↔ ev.answer s c.id (c.view s) = .ok true ∧ c.view s = some e := by
  unfold hit
  split
  · next h => simp [h]
  · next h =>
    have hnot : ev.answer s c.id (c.view s) ≠ .ok true := h
    simp [hnot]

/-- Every candidate can be evaluated. -/
def Clean (ev : Evaluator) (s : Store) (cs : List Candidate) : Prop :=
  ∀ c ∈ cs, ∃ b, ev.answer s c.id (c.view s) = .ok b

instance (ev : Evaluator) (s : Store) (cs : List Candidate) : Decidable (Clean ev s cs) :=
  decidable_of_iff (∀ c ∈ cs, (ev.answer s c.id (c.view s)).isOk = true) <|
    forall₂_congr fun c _ => by
      cases ev.answer s c.id (c.view s) <;> simp [Except.isOk, Except.toBool]

/-! ### Looking for the next match -/

namespace NextMatch

/-- The first candidate decides, unless it does not match. -/
theorem find_cons (ev : Evaluator) (s : Store) (c : Candidate) (cs : List Candidate) :
    find ev s (c :: cs) =
      match ev.answer s c.id (c.view s) with
      | .error err => ⟨.error err, cs, 1⟩
      | .ok _ =>
        match c.hit ev s with
        | some e => ⟨.ok (some e), cs, 1⟩
        | none => (find ev s cs).skip := by
  obtain ⟨d, hd, -, hview⟩ := ev.faithful s c
  rw [find, hd]
  unfold Candidate.hit
  cases ev.answer s c.id (c.view s) with
  | error err => rfl
  | ok b =>
    cases b with
    | false => rfl
    | true =>
      have hentry : (d.resolve s).1 = c.view s := (Candidate.resolve_fst d s).trans hview
      show (match (d.resolve s).1 with
        | some e => NextMatch.mk (.ok (some e)) cs 1
        | none => (find ev s cs).skip) = _
      rw [hentry]

theorem find_error {err : SearchError} (h : (find ev s cs).outcome = .error err) :
    ¬ Clean ev s cs := by
  induction cs with
  | nil => cases h
  | cons c cs ih =>
    rw [find_cons] at h
    intro hclean
    obtain ⟨⟨b, hb⟩, hrest⟩ := List.forall_mem_cons.mp hclean
    rw [hb] at h
    cases hhit : c.hit ev s with
    | some e => rw [hhit] at h; cases h
    | none =>
      rw [hhit] at h
      exact ih h hrest

theorem find_none (h : (find ev s cs).outcome = .ok none) :
    Clean ev s cs ∧ cs.filterMap (Candidate.hit ev s) = [] := by
  induction cs with
  | nil => exact ⟨fun c hc => absurd hc List.not_mem_nil, rfl⟩
  | cons c cs ih =>
    rw [find_cons] at h
    cases ha : ev.answer s c.id (c.view s) with
    | error err => rw [ha] at h; cases h
    | ok b =>
      rw [ha] at h
      cases hhit : c.hit ev s with
      | some e => rw [hhit] at h; cases h
      | none =>
        rw [hhit] at h
        obtain ⟨hclean, hnone⟩ := ih h
        exact ⟨List.forall_mem_cons.mpr ⟨⟨b, ha⟩, hclean⟩,
          (List.filterMap_cons_none hhit).trans hnone⟩

/-- The match is the hit of a candidate, those before it have none, and those behind it are left. -/
theorem find_some (h : (find ev s cs).outcome = .ok (some e)) :
    ∃ before c, cs = before ++ c :: (find ev s cs).rest ∧ Clean ev s (before ++ [c]) ∧
      before.filterMap (Candidate.hit ev s) = [] ∧ c.hit ev s = some e := by
  induction cs with
  | nil => cases h
  | cons c cs ih =>
    rw [find_cons] at h ⊢
    cases ha : ev.answer s c.id (c.view s) with
    | error err => rw [ha] at h; cases h
    | ok b =>
      rw [ha] at h
      cases hhit : c.hit ev s with
      | some e' =>
        rw [hhit] at h
        cases h
        refine ⟨[], c, rfl, ?_, rfl, hhit⟩
        exact List.forall_mem_singleton.mpr ⟨b, ha⟩
      | none =>
        rw [hhit] at h
        obtain ⟨before, d, hcs, hclean, hnone, hd⟩ := ih h
        refine ⟨c :: before, d, congrArg (c :: ·) hcs, ?_, ?_, hd⟩
        · exact List.forall_mem_cons.mpr ⟨⟨b, ha⟩, hclean⟩
        · exact (List.filterMap_cons_none hhit).trans hnone

theorem find_rest_subset (ev : Evaluator) (s : Store) (cs : List Candidate) :
    (find ev s cs).rest ⊆ cs := by
  induction cs with
  | nil => exact List.Subset.refl []
  | cons c cs ih =>
    rw [find_cons]
    cases ev.answer s c.id (c.view s) with
    | error err => exact List.subset_cons_self c cs
    | ok b =>
      cases c.hit ev s with
      | some e => exact List.subset_cons_self c cs
      | none => exact List.subset_cons_of_subset c ih

end NextMatch

namespace SearchCursor

variable {c d : SearchCursor} {st : CandidateStream}

/-! ### One step -/

/-- The candidates still to come. -/
def pending (c : SearchCursor) : List Candidate := (c.stream.map CandidateStream.rest).getD []

theorem pending_eq (hst : c.stream = some st) : c.pending = st.rest := by
  rw [pending, hst]
  rfl

theorem atLimit_iff :
    c.atLimit = true ↔ ∃ limit, c.sizeLimit = some limit ∧ limit ≤ c.returned := by
  rw [atLimit]
  cases c.sizeLimit <;> simp

theorem atLimit_eq_false_iff :
    c.atLimit = false ↔ ∀ limit, c.sizeLimit = some limit → c.returned < limit := by
  rw [Bool.eq_false_iff, ne_eq, atLimit_iff]
  simp

/-- A limit of zero is none. -/
theorem sizeLimit_start (s : Store) (candidates : Candidates) (ev : Evaluator)
    {sizeLimit : Option UInt64} {n : Nat} :
    (start s candidates ev sizeLimit).sizeLimit = some n ↔
      ∃ limit, sizeLimit = some limit ∧ limit ≠ 0 ∧ limit.toNat = n := by
  simp only [start, Option.filter_eq_some_iff, Option.map_eq_some_iff, decide_eq_true_eq]
  constructor
  · rintro ⟨⟨limit, hlimit, rfl⟩, hpos⟩
    exact ⟨limit, hlimit, by rintro rfl; exact absurd hpos (by decide), rfl⟩
  · rintro ⟨limit, hlimit, hne, rfl⟩
    exact ⟨⟨limit, hlimit, rfl⟩, Nat.pos_of_ne_zero fun h => hne (UInt64.toNat_inj.mp h)⟩

/-- The cursor behind a look for the next match. -/
def behind (c : SearchCursor) (st : CandidateStream) (found : NextMatch) : SearchCursor :=
  { c with stream := some { st with rest := found.rest }, scanned := c.scanned + found.looked }

/-- What a step can come to: the answer and the cursor behind it. -/
inductive NextCase (c : SearchCursor) (s : Store) :
    Except SearchError (Option Entry) × SearchCursor → Prop where
  /-- There is nothing to come, and nothing changes. -/
  | closed : c.stream = none → NextCase c s (.ok none, c)
  /-- A candidate cannot be evaluated. -/
  | failed {st : CandidateStream} {err : SearchError} : c.stream = some st →
      (NextMatch.find c.evaluator s st.rest).outcome = .error err →
      NextCase c s (.error err, (c.behind st (NextMatch.find c.evaluator s st.rest)).close)
  /-- No candidate matches any more. -/
  | exhausted {st : CandidateStream} : c.stream = some st →
      (NextMatch.find c.evaluator s st.rest).outcome = .ok none →
      NextCase c s (.ok none, (c.behind st (NextMatch.find c.evaluator s st.rest)).close)
  /-- There is one more match, for which the limit leaves no room. -/
  | limited {st : CandidateStream} {e : Entry} : c.stream = some st →
      (NextMatch.find c.evaluator s st.rest).outcome = .ok (some e) → c.atLimit = true →
      NextCase c s (.ok none,
        { (c.behind st (NextMatch.find c.evaluator s st.rest)).close with limitReached := true })
  /-- A match is handed out. -/
  | found {st : CandidateStream} {e : Entry} : c.stream = some st →
      (NextMatch.find c.evaluator s st.rest).outcome = .ok (some e) → c.atLimit = false →
      NextCase c s (.ok (some e),
        { c.behind st (NextMatch.find c.evaluator s st.rest) with returned := c.returned + 1 })

section Equations

variable {err : SearchError}

theorem next_of_closed (hst : c.stream = none) : c.next s = (.ok none, c) := by
  rw [next, hst]

theorem next_of_error (hst : c.stream = some st)
    (hfound : (NextMatch.find c.evaluator s st.rest).outcome = .error err) :
    c.next s = (.error err, (c.behind st (NextMatch.find c.evaluator s st.rest)).close) := by
  simp only [next, hst, hfound]
  rfl

theorem next_of_none (hst : c.stream = some st)
    (hfound : (NextMatch.find c.evaluator s st.rest).outcome = .ok none) :
    c.next s = (.ok none, (c.behind st (NextMatch.find c.evaluator s st.rest)).close) := by
  simp only [next, hst, hfound]
  rfl

theorem next_of_limited (hst : c.stream = some st)
    (hfound : (NextMatch.find c.evaluator s st.rest).outcome = .ok (some e))
    (hlimit : c.atLimit = true) :
    c.next s = (.ok none,
      { (c.behind st (NextMatch.find c.evaluator s st.rest)).close with limitReached := true }) := by
  simp only [next, hst, hfound]
  exact if_pos hlimit

theorem next_of_found (hst : c.stream = some st)
    (hfound : (NextMatch.find c.evaluator s st.rest).outcome = .ok (some e))
    (hlimit : c.atLimit = false) :
    c.next s = (.ok (some e),
      { c.behind st (NextMatch.find c.evaluator s st.rest) with returned := c.returned + 1 }) := by
  simp only [next, hst, hfound]
  exact if_neg (Bool.eq_false_iff.mp hlimit)

end Equations

theorem next_case (c : SearchCursor) (s : Store) : c.NextCase s (c.next s) := by
  cases hst : c.stream with
  | none =>
    rw [next_of_closed hst]
    exact .closed hst
  | some st =>
    cases hfound : (NextMatch.find c.evaluator s st.rest).outcome with
    | error err =>
      rw [next_of_error hst hfound]
      exact .failed hst hfound
    | ok found =>
      cases found with
      | none =>
        rw [next_of_none hst hfound]
        exact .exhausted hst hfound
      | some e =>
        cases hlimit : c.atLimit with
        | true =>
          rw [next_of_limited hst hfound hlimit]
          exact .limited hst hfound hlimit
        | false =>
          rw [next_of_found hst hfound hlimit]
          exact .found hst hfound hlimit

theorem next_evaluator (c : SearchCursor) (s : Store) : (c.next s).2.evaluator = c.evaluator := by
  have h := c.next_case s
  generalize c.next s = a at h
  cases h <;> rfl

theorem next_sizeLimit (c : SearchCursor) (s : Store) : (c.next s).2.sizeLimit = c.sizeLimit := by
  have h := c.next_case s
  generalize c.next s = a at h
  cases h <;> rfl

/-- A step leaves the cursor open exactly if it hands out an entry. -/
theorem next_closed_iff (c : SearchCursor) (s : Store) :
    (c.next s).2.stream = none ↔ ∀ e, (c.next s).1 ≠ .ok (some e) := by
  have hcase := c.next_case s
  generalize c.next s = answer at hcase
  cases hcase with
  | closed hst => simp [hst]
  | found => simp [behind]
  | _ => simp [close]

/-- A step takes candidates away, and adds none. -/
theorem next_pending_subset (c : SearchCursor) (s : Store) : (c.next s).2.pending ⊆ c.pending := by
  have h := c.next_case s
  generalize c.next s = a at h
  cases h with
  | closed => exact List.Subset.refl _
  | failed => exact List.nil_subset _
  | exhausted => exact List.nil_subset _
  | limited => exact List.nil_subset _
  | @found st e hst =>
    rw [pending_eq hst]
    exact NextMatch.find_rest_subset c.evaluator s st.rest

/-- Behind a match the same search goes on with the candidates that are left. -/
theorem next_snd (hst : c.stream = some st) (h : c.next s = (.ok (some e), d)) :
    (NextMatch.find c.evaluator s st.rest).outcome = .ok (some e) ∧
      d.evaluator = c.evaluator ∧ d.sizeLimit = c.sizeLimit ∧
      d.stream = some { st with rest := (NextMatch.find c.evaluator s st.rest).rest } := by
  have hcase := c.next_case s
  rw [h] at hcase
  cases hcase with
  | found hst' hfound =>
    obtain rfl := Option.some.inj (hst.symm.trans hst')
    exact ⟨hfound, rfl, rfl, rfl⟩

/-- What a step hands out is the hit of one of the candidates. -/
theorem exists_hit_of_next (h : (c.next s).1 = .ok (some e)) :
    ∃ a ∈ c.pending, a.hit c.evaluator s = some e := by
  have hcase := c.next_case s
  generalize c.next s = answer at h hcase
  cases hcase with
  | found hst hfound =>
    cases h
    obtain ⟨before, a, hcs, -, -, hhit⟩ := NextMatch.find_some hfound
    refine ⟨a, ?_, hhit⟩
    rw [pending_eq hst, hcs]
    simp
  | _ => cases h

/-! ### Draining -/

theorem next_fst (hlimit : c.sizeLimit = none) (hst : c.stream = some st) :
    (c.next s).1 = (NextMatch.find c.evaluator s st.rest).outcome := by
  have hcase := c.next_case s
  generalize c.next s = answer at hcase
  cases hcase with
  | closed hst' => rw [hst] at hst'; cases hst'
  | failed hst' hfound =>
    obtain rfl := Option.some.inj (hst.symm.trans hst')
    exact hfound.symm
  | exhausted hst' hfound =>
    obtain rfl := Option.some.inj (hst.symm.trans hst')
    exact hfound.symm
  | limited _ _ hfull => simp [atLimit, hlimit] at hfull
  | found hst' hfound =>
    obtain rfl := Option.some.inj (hst.symm.trans hst')
    exact hfound.symm

/-- A cursor without a limit fails exactly when a candidate cannot be evaluated. -/
theorem drain_failure_iff (hlimit : c.sizeLimit = none) (hst : c.stream = some st) :
    (c.drain s).failure = none ↔ Clean c.evaluator s st.rest := by
  fun_induction drain c s generalizing st with
  | case1 c err d hnext =>
    have h := next_fst (s := s) hlimit hst
    rw [hnext] at h
    simpa using NextMatch.find_error h.symm
  | case2 c d hnext =>
    have h := next_fst (s := s) hlimit hst
    rw [hnext] at h
    simpa using (NextMatch.find_none h.symm).1
  | case3 c e d hnext run =>
    rename_i ih
    obtain ⟨hfound, hev, hlim, hstream⟩ := next_snd hst hnext
    obtain ⟨before, b, hcs, hclean, -, -⟩ := NextMatch.find_some hfound
    -- up to the match every candidate has been evaluated, and the rest is left to the other steps
    have hrun := ih (hlim.trans hlimit) hstream
    rw [hev] at hrun
    show (d.drain s).failure = none ↔ _
    generalize (NextMatch.find c.evaluator s st.rest).rest = rest at hcs hrun
    rw [hrun, hcs]
    constructor
    · intro hrest a ha
      rcases List.mem_append.mp ha with ha | ha
      · exact hclean a (List.mem_append_left _ ha)
      · rcases List.mem_cons.mp ha with rfl | ha
        · exact hclean a (by simp)
        · exact hrest a ha
    · intro hall a ha
      exact hall a (List.mem_append_right _ (List.mem_cons_of_mem _ ha))

/-- Without a failure, a cursor without a limit hands out the hits of its candidates. -/
theorem drain_entries (hlimit : c.sizeLimit = none) (hst : c.stream = some st)
    (hok : (c.drain s).failure = none) :
    (c.drain s).entries = st.rest.filterMap (Candidate.hit c.evaluator s) := by
  fun_induction drain c s generalizing st with
  | case1 c err d hnext => cases hok
  | case2 c d hnext =>
    have h := next_fst (s := s) hlimit hst
    rw [hnext] at h
    exact (NextMatch.find_none h.symm).2.symm
  | case3 c e d hnext run =>
    rename_i ih
    obtain ⟨hfound, hev, hlim, hstream⟩ := next_snd hst hnext
    obtain ⟨before, b, hcs, -, hnone, hhit⟩ := NextMatch.find_some hfound
    have hrun := ih (hlim.trans hlimit) hstream hok
    rw [hev] at hrun
    show e :: (d.drain s).entries = _
    generalize (NextMatch.find c.evaluator s st.rest).rest = rest at hcs hrun
    rw [hrun, hcs, List.filterMap_append, hnone, List.filterMap_cons_some hhit, List.nil_append]

end SearchCursor

end Directory
