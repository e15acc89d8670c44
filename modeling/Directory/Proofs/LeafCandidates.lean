import Directory.Proofs.LeafMeaning

/-!
# Candidates of single assertions

A bounded set of candidates comes from the forward side of an index, by a look-up, a range or a
scan, while the evaluator asks the reverse side for the keys of one id. Both agree on every id,
stored or not: the candidates of an assertion are the ids for which its evaluator says yes
(`Store.Reachable.exact_candidates`).

A substring pattern that fixes the beginning of a text is answered by a scan (`Leaf.scan`). A cursor
is opened at the first key that is not less than the beginning, and read until a key does not begin
with it. Since texts that begin alike stand together, no key that the pattern accepts is missed
(`Leaf.mem_scan_iff`).
-/

namespace Directory

namespace Leaf

/-! ### The forward scan -/

/-- Note the id of a pair whose key has the form of the pattern. -/
def note (pattern : Pattern) (ids : SortedSet EntryId) (pair : NormalValue × EntryId) :
    SortedSet EntryId :=
  if pattern.accepts pair.1 then ids.insert pair.2 else ids

/-- Read pairs as long as their keys begin with the text, and note those of the form of the
pattern. -/
def scanPairs (pattern : Pattern) (start : String) :
    List (NormalValue × EntryId) → SortedSet EntryId → SortedSet EntryId
  | [], ids => ids
  | pair :: pairs, ids =>
    if beginsWith start pair.1 then scanPairs pattern start pairs (note pattern ids pair) else ids

/-- Read pairs from a cursor as long as their keys begin with the text, and note those of the form
of the pattern. -/
def scan (pattern : Pattern) (start : String) :
    Cursor (NormalValue × EntryId) → SortedSet EntryId → SortedSet EntryId
  | .reading pairs, ids => scanPairs pattern start pairs ids
  | .closed, ids => ids

variable {pattern : Pattern} {start : String} {ids : SortedSet EntryId} {id : EntryId}
  {r : Registry} {s : Store} {l : Leaf} {ix : AttributeIndex}

/-- One step of the scan. -/
theorem scan_eq_next (c : Cursor (NormalValue × EntryId)) :
    scan pattern start c ids =
      match c.next with
      | (none, _) => ids
      | (some pair, c) =>
        if beginsWith start pair.1 then scan pattern start c (note pattern ids pair) else ids := by
  rcases c with ⟨_ | ⟨pair, pairs⟩⟩ | _ <;> rfl

/-- The pairs that the scan reads are those that begin with the text, and it notes those of them
that have the form of the pattern. -/
theorem scanPairs_eq (pairs : List (NormalValue × EntryId)) :
    scanPairs pattern start pairs ids =
      ids.insertAll (((pairs.takeWhile fun pair => beginsWith start pair.1).filter fun pair =>
        pattern.accepts pair.1).map Prod.snd) := by
  induction pairs generalizing ids with
  | nil => rfl
  | cons pair pairs ih =>
    rw [scanPairs, List.takeWhile_cons]
    cases beginsWith start pair.1 with
    | false => rfl
    | true =>
      rw [if_pos rfl, if_pos rfl, ih, note, List.filter_cons]
      cases pattern.accepts pair.1 <;> rfl

/-- The scan from the beginning of the pattern gives what the plan takes for its candidates. -/
theorem scan_cursorFrom (ix : AttributeIndex) :
    scan pattern start (ix.cursorFrom (.text start)) .empty =
      idsOf ((pairsBeginning ix start).filter fun pair => pattern.accepts pair.1) :=
  scanPairs_eq _

/-- **A scan from the beginning of a pattern misses nothing.** It collects the ids of all keys that
have the form of the pattern. -/
theorem mem_scan_iff (hstart : pattern.initial = some start) :
    id ∈ scan pattern start (ix.cursorFrom (.text start)) .empty ↔
      ∃ text, (.text text, id) ∈ ix.postings.forward ∧ pattern.Describes text.toList := by
  rw [scan_cursorFrom, mem_idsOf]
  simp only [List.mem_filter, mem_pairsBeginning]
  constructor
  · rintro ⟨key, ⟨hmem, -⟩, haccepts⟩
    obtain ⟨text, rfl, hdescribes⟩ := Pattern.accepts_iff.mp haccepts
    exact ⟨text, hmem, hdescribes⟩
  · rintro ⟨text, hmem, hdescribes⟩
    have haccepts : pattern.accepts (.text text) = true :=
      Pattern.accepts_iff.mpr ⟨text, rfl, hdescribes⟩
    exact ⟨.text text, ⟨hmem, Pattern.beginsWith_of_accepts hstart haccepts⟩, haccepts⟩

/-- A bounded substring assertion has an index and a fixed beginning, and its candidates come from a
scan. -/
theorem exists_scan_of_bounded {rule : MatchingRule} (hlike : l.condition = .like rule pattern)
    (hids : (l.candidates s).1 = .bounded ids) :
    ∃ ix start, l.index? s = some ix ∧ pattern.initial = some start ∧
      ids = scan pattern start (ix.cursorFrom (.text start)) .empty := by
  obtain ⟨ix, hix⟩ := exists_index_of_bounded hids
  rw [candidates, hix] at hids
  simp only [hlike] at hids
  cases hstart : pattern.initial with
  | none =>
    rw [hstart] at hids
    cases hids
  | some start =>
    rw [hstart] at hids
    obtain rfl := Candidates.bounded.inj hids
    exact ⟨ix, start, hix, rfl, (scan_cursorFrom ix).symm⟩

end Leaf

/-! ### Candidates and evaluations -/

/-- What the candidates of a planned assertion say about its evaluator, which is asked about an id
from scratch. -/
structure Plan.Exact (p : Plan) (s : Store) (ids : SortedSet EntryId) : Prop where
  /-- Every id is decided, and the candidates are those for which the answer is yes. -/
  mem_iff : ∀ id, (∃ b, (p.evaluator.evaluate s (.new id)).1 = .ok b) ∧
    (id ∈ ids ↔ (p.evaluator.evaluate s (.new id)).1 = .ok true)
  /-- The candidates for a substring pattern come from a scan, which finds the ids with a key of the
  form of the pattern. -/
  scan : ∀ l rule pattern, p.evaluator = .leaf l → l.condition = .like rule pattern →
    ∃ ix start, l.index? s = some ix ∧ pattern.initial = some start ∧
      ids = Leaf.scan pattern start (ix.cursorFrom (.text start)) .empty ∧
      ∀ id, id ∈ ids ↔ ∃ text, (.text text, id) ∈ ix.postings.forward ∧
        pattern.Describes text.toList

variable {r : Registry} {s : Store} {a : Assertion} {p : Plan} {ids : SortedSet EntryId}

/-- **Bounded candidates are exact.** An id is a candidate of an assertion just when the evaluator
of the assertion says yes to it. -/
theorem Store.Reachable.exact_candidates (hs : s.Reachable r)
    (hp : Plan.build s r (.assertion a) = .ok p) (hids : p.candidates = .bounded ids) :
    p.Exact s ids := by
  obtain ⟨l, -, rfl⟩ := Plan.build_assertion_iff.mp hp
  have hids : (l.candidates s).1 = .bounded ids := hids
  constructor
  · intro id
    obtain ⟨ix, hix⟩ := Leaf.exists_index_of_bounded hids
    have hanswer : (l.evaluate s (.new id)).1 = .ok (l.condition.testIndex s ix id).holds := by
      rw [Leaf.evaluate, hix]
      rfl
    have hleaf : (Plan.ofLeaf s a l).evaluator.evaluate s (.new id) = l.evaluate s (.new id) := rfl
    rw [hleaf, hanswer, Leaf.mem_candidates_iff hs.synced hix hids]
    exact ⟨⟨_, rfl⟩, by rw [Except.ok.injEq]⟩
  · intro l' rule pattern hleaf hlike
    obtain rfl := Evaluator.leaf.inj hleaf
    obtain ⟨ix, start, hix, hstart, rfl⟩ := Leaf.exists_scan_of_bounded hlike hids
    exact ⟨ix, start, hix, hstart, rfl, fun id => Leaf.mem_scan_iff hstart⟩

/-- Three surnames begin with the text, and two of them have the form of the pattern. The scan ends
at the key that begins otherwise. An entry that has been deleted is not found. -/
theorem exact_candidates_surnames :
    let s := (Store.new "people").performAll .surnames
      [.addIndex "sn" false, .addEntry (.ofAttributes 1 "" [("sn", ["van  Dyck", "Dyck"])]),
        .addEntry (.ofAttributes 2 "" [("sn", ["Van Eyck"])]),
        .addEntry (.ofAttributes 3 "" [("sn", ["van Gogh", "Wright"])]),
        .addEntry (.ofAttributes 4 "" [("sn", ["van Rijck"])]), .deleteEntry 4]
    let a := Assertion.substring "SN" ⟨some "VAN ", [], some "yck"⟩
    ∃ p ids, s.Reachable .surnames ∧ Plan.build s .surnames (.assertion a) = .ok p ∧
      p.candidates = .bounded ids ∧ ids.toList = [1, 2] ∧ p.Exact s ids := by
  intro s a
  have hs : s.Reachable .surnames := (Store.Reachable.new "people").performAll _
  have hplan : ∃ p, Plan.build s .surnames (.assertion a) = .ok p ∧
      p.candidates.ids?.map SortedSet.toList = some [1, 2] :=
    exists_eq_ok_of_decide (by decide +kernel)
  obtain ⟨p, hp, hlist⟩ := hplan
  obtain ⟨ids, hids, hlist⟩ := Option.map_eq_some_iff.mp hlist
  have hbounded : p.candidates = .bounded ids := by
    cases hc : p.candidates with
    | unbounded =>
      rw [hc] at hids
      cases hids
    | bounded ids' =>
      rw [hc] at hids
      rw [Option.some.inj hids]
  exact ⟨p, ids, hs, hp, hbounded, hlist, hs.exact_candidates hp hbounded⟩

end Directory
