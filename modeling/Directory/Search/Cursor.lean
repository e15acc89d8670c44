import Directory.Search.Plan

/-!
# Search cursors

A search cursor takes candidates one by one, from a set of ids or from a scan of all entries, and
hands out the entries that match. Candidates known by id are looked up when their turn comes. The
cursor closes when the candidates are used up, when an evaluation fails, when it is told to, and at
the size limit; there it goes on to the next match only to see whether there is one.
-/

namespace Directory

/-- The candidates still to come, and whether they are all entries of the store. -/
structure CandidateStream where
  fullScan : Bool
  rest : List Candidate
  deriving DecidableEq, Repr, Inhabited

/-- The candidates of a plan, where any entry can match those that the store has now. -/
def Candidates.stream (s : Store) : Candidates → CandidateStream
  | bounded ids => ⟨false, ids.toList.map Candidate.new⟩
  | unbounded => ⟨true, s.entries.values.map Candidate.ofEntry⟩

/-- The next match among candidates: the entry or the failure, the candidates behind it, and how
many were looked at. -/
structure NextMatch where
  outcome : Except SearchError (Option Entry)
  rest : List Candidate
  looked : Nat

namespace NextMatch

/-- One more candidate was looked at. -/
def skip (m : NextMatch) : NextMatch := { m with looked := m.looked + 1 }

/-- Look for the next match. -/
def find (ev : Evaluator) (s : Store) : List Candidate → NextMatch
  | [] => ⟨.ok none, [], 0⟩
  | c :: cs =>
    match ev.evaluate s c with
    | (.error err, _) => ⟨.error err, cs, 1⟩
    | (.ok false, _) => (find ev s cs).skip
    | (.ok true, c) =>
      match (c.resolve s).1 with
      | some e => ⟨.ok (some e), cs, 1⟩
      | none => (find ev s cs).skip

theorem find_rest_length (ev : Evaluator) (s : Store) (cs : List Candidate) {e : Entry}
    (h : (find ev s cs).outcome = .ok (some e)) : (find ev s cs).rest.length < cs.length := by
  induction cs with
  | nil => simp [find] at h
  | cons c cs ih =>
    rw [find] at h ⊢
    split at h
    · simp at h
    · exact Nat.lt_succ_of_lt (ih h)
    · split at h
      · simp
      · exact Nat.lt_succ_of_lt (ih h)

end NextMatch

/-- A search under way. -/
structure SearchCursor where
  evaluator : Evaluator
  /-- The greatest number of entries to hand out. -/
  sizeLimit : Option Nat
  /-- The candidates still to come, until the cursor is closed. -/
  stream : Option CandidateStream
  returned : Nat := 0
  scanned : Nat := 0
  limitReached : Bool := false
  deriving Repr, Inhabited

namespace SearchCursor

/-- Open a cursor. A size limit of zero is no limit. -/
def start (s : Store) (candidates : Candidates) (evaluator : Evaluator)
    (sizeLimit : Option UInt64) : SearchCursor :=
  { evaluator
    sizeLimit := (sizeLimit.map UInt64.toNat).filter (0 < ·)
    stream := some (candidates.stream s) }

/-- The cursor is closed. -/
def isClosed (c : SearchCursor) : Bool := c.stream.isNone

/-- The cursor is open and its candidates are all entries of the store. -/
def isFullScan (c : SearchCursor) : Bool := c.stream.any CandidateStream.fullScan

/-- Release the candidates. -/
def close (c : SearchCursor) : SearchCursor := { c with stream := none }

/-- The limit leaves no room for another entry. -/
def atLimit (c : SearchCursor) : Bool := c.sizeLimit.any fun limit => decide (limit ≤ c.returned)

/-- The next entry, or the failure that ends the search. -/
def next (c : SearchCursor) (s : Store) : Except SearchError (Option Entry) × SearchCursor :=
  match c.stream with
  | none => (.ok none, c)
  | some stream =>
    let found := NextMatch.find c.evaluator s stream.rest
    let c := { c with
      stream := some { stream with rest := found.rest }
      scanned := c.scanned + found.looked }
    match found.outcome with
    | .error err => (.error err, c.close)
    | .ok none => (.ok none, c.close)
    | .ok (some e) =>
      if c.atLimit then (.ok none, { c.close with limitReached := true })
      else (.ok (some e), { c with returned := c.returned + 1 })

/-- The number of candidates still to come. -/
def remaining (c : SearchCursor) : Nat :=
  match c.stream with
  | none => 0
  | some stream => stream.rest.length

theorem next_remaining {c d : SearchCursor} {s : Store} {e : Entry}
    (h : c.next s = (.ok (some e), d)) : d.remaining < c.remaining := by
  unfold next at h
  split at h
  · simp at h
  · next stream hs =>
    dsimp only at h
    split at h
    · simp at h
    · simp at h
    · next e' he =>
      split at h
      · simp at h
      · obtain ⟨-, rfl⟩ := Prod.mk.injEq .. ▸ h
        simpa [remaining, hs] using NextMatch.find_rest_length _ _ _ he

/-- What a search handed out until its end. -/
structure Run where
  entries : List Entry
  failure : Option SearchError
  cursor : SearchCursor
  deriving Repr, Inhabited

/-- Take entries until there are no more, while the store stays as it is. -/
def drain (c : SearchCursor) (s : Store) : Run :=
  match _h : c.next s with
  | (.error err, d) => ⟨[], some err, d⟩
  | (.ok none, d) => ⟨[], none, d⟩
  | (.ok (some e), d) =>
    let run := d.drain s
    { run with entries := e :: run.entries }
  termination_by c.remaining
  decreasing_by exact next_remaining _h

end SearchCursor

end Directory
