import Directory.Proofs.SearchScan

/-!
# Size limits

A search with a size limit hands out what the same search without a limit hands out, and ends as it
does, as long as this is not more than the limit. If it is more, the search ends at the limit
without a failure, and says that there would have been more.

Two cursors over the same candidates are drained side by side, and the second has no limit
(`Beside.drain_within`, `Beside.drain_beyond`). At its limit the first one looks for one more match,
and this look decides: a match means that there would have been more, and a failure is the one that
ends the other search too.
-/

namespace Directory

namespace SearchCursor

variable {c d u : SearchCursor} {s : Store} {e : Entry} {err : SearchError} {limit : Nat}

/-! ### Draining step by step -/

theorem drain_of_error (h : c.next s = (.error err, d)) : c.drain s = ⟨[], some err, d⟩ := by
  rw [drain]
  split <;> rename_i heq <;> cases h.symm.trans heq
  rfl

theorem drain_of_none (h : c.next s = (.ok none, d)) : c.drain s = ⟨[], none, d⟩ := by
  rw [drain]
  split <;> rename_i heq <;> cases h.symm.trans heq
  rfl

theorem drain_of_some (h : c.next s = (.ok (some e), d)) :
    c.drain s = { d.drain s with entries := e :: (d.drain s).entries } := by
  rw [drain]
  split <;> rename_i heq <;> cases h.symm.trans heq
  rfl

/-! ### The same candidates with and without a limit -/

/-- The cursors are about to go through the same candidates. The second has no limit, and the first
has not gone past its limit, if it has one. -/
structure Beside (c u : SearchCursor) : Prop where
  evaluator : u.evaluator = c.evaluator
  stream : u.stream = c.stream
  unlimited : u.sizeLimit = none
  returned_le : ∀ limit, c.sizeLimit = some limit → c.returned ≤ limit
  not_reached : c.limitReached = false

/-- Where the cursor without a limit ends, the other one ends alike. -/
theorem Beside.next_of_ended (h : c.Beside u) {answer : Except SearchError (Option Entry)}
    (hnext : u.next s = (answer, d)) (hend : ∀ e, answer ≠ .ok (some e)) :
    ∃ c', c.next s = (answer, c') ∧ c'.limitReached = false := by
  have hcase := u.next_case s
  rw [hnext] at hcase
  cases hcase with
  | closed hst => exact ⟨c, next_of_closed (h.stream ▸ hst), h.not_reached⟩
  | failed hst hfound =>
    rw [h.stream] at hst
    rw [h.evaluator] at hfound
    exact ⟨_, next_of_error hst hfound, h.not_reached⟩
  | exhausted hst hfound =>
    rw [h.stream] at hst
    rw [h.evaluator] at hfound
    exact ⟨_, next_of_none hst hfound, h.not_reached⟩
  | limited _ _ hfull => simp [atLimit, h.unlimited] at hfull
  | found => exact absurd rfl (hend _)

/-- Where the cursor without a limit hands out an entry, the other one does so too, unless it is at
its limit. -/
theorem Beside.next_of_some (h : c.Beside u) (hnext : u.next s = (.ok (some e), d)) :
    (∃ c', c.next s = (.ok (some e), c') ∧ c'.Beside d ∧ c'.sizeLimit = c.sizeLimit ∧
        c'.returned = c.returned + 1) ∨
      (c.sizeLimit = some c.returned ∧ ∃ c', c.next s = (.ok none, c') ∧
        c'.limitReached = true) := by
  have hcase := u.next_case s
  rw [hnext] at hcase
  cases hcase with
  | found hst hfound =>
    rw [h.stream] at hst
    rw [h.evaluator] at hfound ⊢
    cases hlimit : c.atLimit with
    | false =>
      left
      refine ⟨_, next_of_found hst hfound hlimit, ⟨h.evaluator, rfl, h.unlimited, ?_,
        h.not_reached⟩, rfl, rfl⟩
      exact fun limit hsome => atLimit_eq_false_iff.mp hlimit limit hsome
    | true =>
      right
      obtain ⟨limit, hsome, hfull⟩ := atLimit_iff.mp hlimit
      have hreturned : limit = c.returned := Nat.le_antisymm hfull (h.returned_le limit hsome)
      exact ⟨hreturned ▸ hsome, _, next_of_limited hst hfound hlimit, rfl⟩

/-- As long as there is room for all, the limit makes no difference. -/
theorem Beside.drain_within (h : c.Beside u) (hroom : ∀ limit, c.sizeLimit = some limit →
    c.returned + (u.drain s).entries.length ≤ limit) :
    (c.drain s).entries = (u.drain s).entries ∧ (c.drain s).failure = (u.drain s).failure ∧
      (c.drain s).cursor.limitReached = false := by
  fun_induction drain u s generalizing c with
  | case1 u err d hnext =>
    obtain ⟨c', hc, hflag⟩ := h.next_of_ended hnext (by simp)
    rw [drain_of_error hc]
    exact ⟨rfl, rfl, hflag⟩
  | case2 u d hnext =>
    obtain ⟨c', hc, hflag⟩ := h.next_of_ended hnext (by simp)
    rw [drain_of_none hc]
    exact ⟨rfl, rfl, hflag⟩
  | case3 u e d hnext run =>
    rename_i ih
    have hroom : ∀ limit, c.sizeLimit = some limit →
        c.returned + ((d.drain s).entries.length + 1) ≤ limit := hroom
    rcases h.next_of_some hnext with ⟨c', hc, hbeside, hlimit, hreturned⟩ | ⟨hfull, -⟩
    · obtain ⟨hentries, hfailure, hflag⟩ := ih hbeside fun limit hsome => by
        have := hroom limit (hlimit.symm.trans hsome)
        omega
      rw [drain_of_some hc]
      exact ⟨congrArg (e :: ·) hentries, hfailure, hflag⟩
    · have := hroom _ hfull
      omega

/-- If there is no room for all, the search ends at the limit and says so. -/
theorem Beside.drain_beyond (h : c.Beside u) (hlimit : c.sizeLimit = some limit)
    (hroom : limit < c.returned + (u.drain s).entries.length) :
    (c.drain s).entries = (u.drain s).entries.take (limit - c.returned) ∧
      (c.drain s).failure = none ∧ (c.drain s).cursor.limitReached = true := by
  have hle : c.returned ≤ limit := h.returned_le limit hlimit
  fun_induction drain u s generalizing c with
  | case1 u err d hnext => exact absurd hroom (Nat.not_lt.mpr hle)
  | case2 u d hnext => exact absurd hroom (Nat.not_lt.mpr hle)
  | case3 u e d hnext run =>
    rename_i ih
    have hroom : limit < c.returned + ((d.drain s).entries.length + 1) := hroom
    show _ = (e :: (d.drain s).entries).take _ ∧ _
    rcases h.next_of_some hnext with ⟨c', hc, hbeside, hsame, hreturned⟩ | ⟨hfull, c', hc, hflag⟩
    · have hlimit' : c'.sizeLimit = some limit := hsame.trans hlimit
      have hle' : c'.returned ≤ limit := hbeside.returned_le limit hlimit'
      obtain ⟨hentries, hfailure, hflag⟩ := ih hbeside hlimit' (by omega) hle'
      have htake : limit - c.returned = limit - c'.returned + 1 := by omega
      rw [drain_of_some hc, htake, List.take_succ_cons]
      exact ⟨congrArg (e :: ·) hentries, hfailure, hflag⟩
    · obtain rfl : limit = c.returned := Option.some.inj (hlimit.symm.trans hfull)
      rw [drain_of_none hc, Nat.sub_self, List.take_zero]
      exact ⟨rfl, rfl, hflag⟩

/-- A cursor that has just been opened stands beside the same one without a limit. -/
theorem beside_start (s : Store) (candidates : Candidates) (ev : Evaluator)
    (sizeLimit : Option UInt64) :
    (start s candidates ev sizeLimit).Beside (start s candidates ev none) :=
  ⟨rfl, rfl, rfl, fun limit _ => Nat.zero_le limit, rfl⟩

end SearchCursor

/-! ### Requests with a limit -/

namespace SearchRequest

variable {q : SearchRequest} {s : Store} {r : Registry} {defaultLimit : Option UInt64} {p : Plan}

/-- **The size limit cuts off and does nothing else.** A request that can be planned runs with its
own limit or else the default one, and without any limit. If there is no limit, or no more entries
than it allows, both searches hand out the same, end alike, and the limit counts as not reached. If
there are more, the first search hands out as many of them as the limit allows, ends without a
failure, and the limit counts as reached. -/
theorem drain_limited (hp : Plan.build s r q.filter = .ok p) :
    ∃ c u, q.search s r defaultLimit = .ok c ∧
      ({ q with sizeLimit := none } : SearchRequest).search s r none = .ok u ∧
      ((q.Unlimited defaultLimit ∨ ∃ limit, q.sizeLimit.or defaultLimit = some limit ∧
          (u.drain s).entries.length ≤ limit.toNat) →
        (c.drain s).entries = (u.drain s).entries ∧ (c.drain s).failure = (u.drain s).failure ∧
          (c.drain s).cursor.limitReached = false) ∧
      ∀ limit, q.sizeLimit.or defaultLimit = some limit → limit ≠ 0 →
        limit.toNat < (u.drain s).entries.length →
          (c.drain s).entries = (u.drain s).entries.take limit.toNat ∧
            (c.drain s).failure = none ∧ (c.drain s).cursor.limitReached = true := by
  have hbeside := SearchCursor.beside_start s p.candidates p.evaluator
    (q.sizeLimit.or defaultLimit)
  refine ⟨_, _, search_eq_ok_iff.mpr ⟨p, hp, rfl⟩, search_eq_ok_iff.mpr ⟨p, hp, rfl⟩, ?_, ?_⟩
  · intro hcase
    refine hbeside.drain_within fun n hn => ?_
    obtain ⟨limit, hlimit, hne, rfl⟩ := (SearchCursor.sizeLimit_start ..).mp hn
    show 0 + _ ≤ _
    rw [Nat.zero_add]
    rcases hcase with (hnone | hzero) | ⟨limit', hlimit', hle⟩
    · rw [hnone] at hlimit
      cases hlimit
    · exact absurd (Option.some.inj (hlimit.symm.trans hzero)) hne
    · rw [Option.some.inj (hlimit.symm.trans hlimit')]
      exact hle
  · intro limit hlimit hne hmore
    refine hbeside.drain_beyond ((SearchCursor.sizeLimit_start ..).mpr ⟨limit, hlimit, hne, rfl⟩) ?_
    show _ < 0 + _
    rwa [Nat.zero_add]

/-- Two entries match and a third one cannot be compared. A limit of one entry spares the search the
failure. With a limit of two it runs into it, though nothing more could have been handed out. -/
theorem drain_limited_failing_end :
    let r : Registry :=
      ⟨[{ oid := "1.4", names := ["size"], equality := some .caseExactMatch,
          ordering := some .integerOrderingMatch }]⟩
    let small := Entry.ofAttributes 1 "" [("size", ["7"])]
    let large := Entry.ofAttributes 2 "" [("size", ["9"])]
    let s := (Store.new "boxes").performAll r [.addEntry small, .addEntry large,
      .addEntry (.ofAttributes 3 "" [("size", ["many"])])]
    let q : SearchRequest := ⟨.assertion (.greaterEq "size" "5"), some 1⟩
    ∃ c d, q.search s r none = .ok c ∧
      (c.drain s).entries = [small] ∧ (c.drain s).failure = none ∧
      (c.drain s).cursor.limitReached = true ∧
      ({ q with sizeLimit := none } : SearchRequest).search s r (some 2) = .ok d ∧
      (d.drain s).entries = [small, large] ∧ (d.drain s).failure ≠ none ∧
      (d.drain s).cursor.limitReached = false := by
  intro r small large s q
  have hplan : ∃ p, Plan.build s r q.filter = .ok p ∧ True :=
    exists_eq_ok_of_decide (by decide +kernel)
  have hall : ∃ u, ({ q with sizeLimit := none } : SearchRequest).search s r none = .ok u ∧
      (u.drain s).entries = [small, large] ∧ (u.drain s).failure ≠ none :=
    exists_eq_ok_of_decide (by decide +kernel)
  obtain ⟨p, hp, -⟩ := hplan
  obtain ⟨u, hu, hentries, hfailure⟩ := hall
  obtain ⟨c, u₁, hc, hu₁, -, hbeyond⟩ := @drain_limited q s r none p hp
  obtain ⟨d, u₂, hd, hu₂, hwithin, -⟩ := @drain_limited ⟨q.filter, none⟩ s r (some 2) p hp
  obtain rfl := Except.ok.inj (hu.symm.trans hu₁)
  obtain rfl := Except.ok.inj (hu.symm.trans hu₂)
  rw [hentries] at hbeyond hwithin
  obtain ⟨hcut, hclean, hreached⟩ := hbeyond 1 rfl (by decide) (by decide)
  obtain ⟨hsame, halike, hnot⟩ := hwithin (.inr ⟨2, rfl, by decide⟩)
  exact ⟨c, d, hc, hcut, hclean, hreached, hd, hsame, halike ▸ hfailure, hnot⟩

end SearchRequest

end Directory
