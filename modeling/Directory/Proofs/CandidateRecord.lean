import Directory.Proofs.LeafMeaning
import Mathlib.Data.List.Chain

/-!
# What is learned about a candidate

A filter is evaluated by asking some of its assertions, one after the other (`Evaluator.visits`),
and the candidate goes from each to the next. What is learned on the way is of two kinds.

* The entry is looked up by the first assertion that needs it and has it at hand from then on. It is
  never exchanged for another one.
* A key is noted by an assertion that holds, if its answer comes with one (`Leaf.Keyed`). It takes
  the place of the key that was there, which thus is the one noted last
  (`Evaluator.evaluate_bookkeeping`).
-/

namespace Directory

variable {s : Store} {id : EntryId} {seen : Option Entry}

/-! ### Answers and their keys -/

/-- The key that comes with the answer. -/
def Answer.key : Answer → Option NormalValue
  | no => none
  | yes key => key

theorem Answer.recordIn_eq (c : Candidate) (a : Answer) :
    a.recordIn c = { c with key := a.key.or c.key } := by
  cases a <;> rfl

theorem Answer.ofBool_eq_yes_iff {b : Bool} {key key' : Option NormalValue} :
    Answer.ofBool b key = .yes key' ↔ b = true ∧ key = key' := by
  cases b <;> simp [Answer.ofBool]

theorem exists_of_firstYes {test : String → Except SchemaError Answer} {raws : List String}
    {key : Option NormalValue} (h : firstYes test raws = .ok (.yes key)) :
    ∃ raw ∈ raws, test raw = .ok (.yes key) := by
  induction raws with
  | nil => cases h
  | cons raw raws ih =>
    obtain ⟨a, ha, hrest⟩ := bind_eq_ok_iff.mp h
    cases a with
    | no =>
      obtain ⟨raw', hmem, htest⟩ := ih hrest
      exact ⟨raw', List.mem_cons_of_mem raw hmem, htest⟩
    | yes key' =>
      cases hrest
      exact ⟨raw, List.mem_cons_self, ha⟩

namespace Condition

variable {c : Condition} {raw : String} {key : Option NormalValue}

/-- Whether positive answers come with keys. Equality gives the asserted value, and ordering the
value that was found, unless an index answers; a pattern gives a key only from an index. -/
def Keyed (indexed : Bool) : Condition → Bool
  | equals _ _ _ => true
  | bounded _ _ _ => !indexed
  | present => false
  | like _ _ => indexed

/-- The answer comes with a key if it should, and the key satisfies the condition. -/
def Explained (c : Condition) (indexed : Bool) (key : Option NormalValue) : Prop :=
  key.isSome = c.Keyed indexed ∧ ∀ k ∈ key, c.acceptsKey k = true

theorem explained_test (h : c.test raw = .ok (.yes key)) : c.Explained false key := by
  cases c with
  | equals approx rule value =>
    obtain ⟨v, -, hyes⟩ := bind_eq_ok_iff.mp h
    obtain ⟨-, rfl⟩ := Answer.ofBool_eq_yes_iff.mp (Except.ok.inj hyes)
    exact ⟨rfl, by rintro k ⟨⟩; exact decide_eq_true rfl⟩
  | bounded side rule bound =>
    obtain ⟨v, -, hyes⟩ := bind_eq_ok_iff.mp h
    obtain ⟨hholds, rfl⟩ := Answer.ofBool_eq_yes_iff.mp (Except.ok.inj hyes)
    rw [MatchingRule.compare_eq] at hholds
    exact ⟨rfl, by rintro k ⟨⟩; exact hholds⟩
  | present =>
    cases h
    exact ⟨rfl, nofun⟩
  | like rule pattern =>
    obtain ⟨v, -, hyes⟩ := bind_eq_ok_iff.mp h
    obtain ⟨-, rfl⟩ := Answer.ofBool_eq_yes_iff.mp (Except.ok.inj hyes)
    exact ⟨rfl, nofun⟩

theorem explained_testIndex {ix : AttributeIndex} (h : c.testIndex s ix id = .yes key) :
    c.Explained true key := by
  cases c with
  | equals approx rule value =>
    obtain ⟨-, rfl⟩ := Answer.ofBool_eq_yes_iff.mp h
    exact ⟨rfl, by rintro k ⟨⟩; exact decide_eq_true rfl⟩
  | bounded side rule bound =>
    cases side <;>
    · obtain ⟨-, rfl⟩ := Answer.ofBool_eq_yes_iff.mp h
      exact ⟨rfl, nofun⟩
  | present =>
    obtain ⟨-, rfl⟩ := Answer.ofBool_eq_yes_iff.mp h
    exact ⟨rfl, nofun⟩
  | like rule pattern =>
    simp only [testIndex] at h
    split at h
    · rename_i k hfind
      cases h
      exact ⟨rfl, by rintro k ⟨⟩; exact List.find?_some hfind⟩
    · cases h

end Condition

/-! ### A single assertion -/

theorem Candidate.resolve_eq (c : Candidate) (s : Store) :
    c.resolve s = (c.view s, { c with entry := c.view s }) := by
  obtain ⟨id, key, entry⟩ := c
  cases entry with
  | some e => rfl
  | none => cases hs : s.entry? id <;> simp [resolve, view, hs]

namespace Leaf

variable {l : Leaf} {a : Answer} {k : NormalValue}

/-- The answer of the assertion for the entry with this id, together with its key. -/
def outcome (l : Leaf) (s : Store) (id : EntryId) (seen : Option Entry) :
    Except SchemaError Answer :=
  match l.index? s with
  | some ix => .ok (l.condition.testIndex s ix id)
  | none =>
    match seen with
    | none => .ok .no
    | some e => l.testEntry e

theorem answer_eq (l : Leaf) (s : Store) (id : EntryId) (seen : Option Entry) :
    l.answer s id seen = ((l.outcome s id seen).map Answer.holds).mapError .ofSchema := by
  unfold answer outcome
  cases l.index? s with
  | some ix => rfl
  | none => cases seen <;> rfl

/-- The key that is noted when the assertion is asked about the entry with this id. -/
def notedKey (l : Leaf) (s : Store) (id : EntryId) (seen : Option Entry) : Option NormalValue :=
  (l.outcome s id seen).toOption.bind Answer.key

/-- What the candidate is after the assertion. -/
theorem evaluate_snd (l : Leaf) (s : Store) (c : Candidate) :
    (l.evaluate s c).2 =
      { id := c.id
        key := (l.notedKey s c.id (c.view s)).or c.key
        entry := if (l.index? s).isSome then c.entry else c.view s } := by
  unfold evaluate notedKey outcome
  cases l.index? s with
  | some ix => exact Answer.recordIn_eq c _
  | none =>
    rw [c.resolve_eq s]
    cases hview : c.view s with
    | none => rfl
    | some e =>
      cases htest : l.testEntry e with
      | error err => simp [htest, Except.toOption]
      | ok a => simp [htest, Except.toOption, Answer.recordIn_eq]

/-- Whether positive answers of the assertion come with keys. -/
def Keyed (l : Leaf) (s : Store) : Bool := l.condition.Keyed (l.index? s).isSome

theorem explained_outcome {key : Option NormalValue} (h : l.outcome s id seen = .ok (.yes key)) :
    l.condition.Explained (l.index? s).isSome key := by
  unfold outcome at h
  cases hindex : l.index? s with
  | some ix =>
    rw [hindex] at h
    exact Condition.explained_testIndex (Except.ok.inj h)
  | none =>
    rw [hindex] at h
    cases seen with
    | none => cases h
    | some e =>
      obtain ⟨raw, -, htest⟩ := exists_of_firstYes h
      exact Condition.explained_test htest

/-- A key is noted when the assertion holds and its answers come with keys. -/
theorem isSome_notedKey_iff :
    (l.notedKey s id seen).isSome = true ↔ l.answer s id seen = .ok true ∧ l.Keyed s = true := by
  rw [answer_eq, notedKey]
  cases ho : l.outcome s id seen with
  | error err => simp [Except.toOption, Except.map, Except.mapError]
  | ok a =>
    cases a with
    | no => simp [Except.toOption, Except.map, Except.mapError, Answer.key, Answer.holds]
    | yes key =>
      have hkeyed : key.isSome = l.Keyed s := (explained_outcome ho).1
      simp [Except.toOption, Except.map, Except.mapError, Answer.key, Answer.holds, hkeyed]

/-- What is noted satisfies the condition. -/
theorem acceptsKey_of_mem_notedKey (h : k ∈ l.notedKey s id seen) :
    l.condition.acceptsKey k = true := by
  rw [notedKey] at h
  cases ho : l.outcome s id seen with
  | error err => simp [ho, Except.toOption] at h
  | ok a =>
    cases a with
    | no => simp [ho, Except.toOption, Answer.key] at h
    | yes key =>
      simp only [ho, Except.toOption, Option.bind_some, Answer.key] at h
      exact (explained_outcome ho).2 k h

end Leaf

/-! ### Assertions one after the other -/

namespace Candidate

variable {c : Candidate} {ls : List Leaf}

/-- The candidate after the assertions. -/
def after (s : Store) (c : Candidate) (ls : List Leaf) : Candidate :=
  ls.foldl (fun c l => (l.evaluate s c).2) c

/-- The keys that the assertions note, in this order. -/
def keysOf (s : Store) (id : EntryId) (seen : Option Entry) (ls : List Leaf) : List NormalValue :=
  ls.filterMap fun l => l.notedKey s id seen

theorem keysOf_cons (l : Leaf) (ls : List Leaf) :
    keysOf s id seen (l :: ls) = (l.notedKey s id seen).toList ++ keysOf s id seen ls := by
  cases h : l.notedKey s id seen <;> simp [keysOf, h]

/-- None of the assertions puts a key in the place of another one. -/
def WritesOnce (s : Store) : Candidate → List Leaf → Prop
  | _, [] => True
  | c, l :: ls => (∀ k ∈ c.key, k ∈ (l.evaluate s c).2.key) ∧ WritesOnce s (l.evaluate s c).2 ls

theorem view_evaluate (l : Leaf) (s : Store) (c : Candidate) :
    (l.evaluate s c).2.view s = c.view s := by
  obtain ⟨d, hd, hsame⟩ := l.evaluate_eq_answer s c
  rw [hd]
  exact hsame.2

theorem id_evaluate (l : Leaf) (s : Store) (c : Candidate) : (l.evaluate s c).2.id = c.id := by
  rw [l.evaluate_snd]

/-- What the candidate is after the assertions. The key is the one noted last. -/
theorem after_eq (s : Store) (c : Candidate) (ls : List Leaf) :
    c.after s ls =
      { id := c.id
        key := (keysOf s c.id (c.view s) ls).getLast?.or c.key
        entry := if ls.all fun l => (l.index? s).isSome then c.entry else c.view s } := by
  induction ls generalizing c with
  | nil => rfl
  | cons l ls ih =>
    have hstep : c.after s (l :: ls) = (l.evaluate s c).2.after s ls := rfl
    rw [hstep, ih, id_evaluate, view_evaluate, keysOf_cons, l.evaluate_snd]
    congr 1
    · cases hn : l.notedKey s c.id (c.view s) with
      | none => rfl
      | some k =>
        rw [Option.toList_some, List.singleton_append, List.getLast?_cons]
        cases (keysOf s c.id (c.view s) ls).getLast? <;> rfl
    · by_cases hl : (l.index? s).isSome = true <;> simp [hl]

/-- No key takes the place of another one just if all that are noted are the same, and the same as
the one that was there. -/
theorem writesOnce_iff (s : Store) (c : Candidate) (ls : List Leaf) :
    c.WritesOnce s ls ↔ (c.key.toList ++ keysOf s c.id (c.view s) ls).IsChain (· = ·) := by
  induction ls generalizing c with
  | nil => cases c.key <;> simp [WritesOnce, keysOf]
  | cons l ls ih =>
    rw [WritesOnce, ih, id_evaluate, view_evaluate, keysOf_cons, l.evaluate_snd]
    cases hn : l.notedKey s c.id (c.view s) with
    | none => simp
    | some k => cases hk : c.key <;> simp [List.isChain_cons_cons, eq_comm]

end Candidate

/-! ### Trees -/

namespace Evaluator

mutual

/-- The assertions that are asked when the tree is evaluated for the entry with this id. -/
def visits (s : Store) (id : EntryId) (seen : Option Entry) : Evaluator → List Leaf
  | leaf l => [l]
  | and children => visitsAll s id seen children
  | or children => visitsAny s id seen children
  | not child => visits s id seen child
  termination_by structural e => e

/-- The assertions that are asked until one of the children does not hold. -/
def visitsAll (s : Store) (id : EntryId) (seen : Option Entry) : List Evaluator → List Leaf
  | [] => []
  | e :: es =>
    match answer s id seen e with
    | .ok true => visits s id seen e ++ visitsAll s id seen es
    | _ => visits s id seen e
  termination_by structural es => es

/-- The assertions that are asked until one of the children holds. -/
def visitsAny (s : Store) (id : EntryId) (seen : Option Entry) : List Evaluator → List Leaf
  | [] => []
  | e :: es =>
    match answer s id seen e with
    | .ok false => visits s id seen e ++ visitsAny s id seen es
    | _ => visits s id seen e
  termination_by structural es => es

end

/-- The keys that are noted when the tree is evaluated for the entry with this id. -/
def notes (s : Store) (id : EntryId) (seen : Option Entry) (e : Evaluator) : List NormalValue :=
  Candidate.keysOf s id seen (e.visits s id seen)

/-- The candidate goes through the assertions that are asked. -/
def Traced (s : Store) (e : Evaluator) : Prop :=
  ∀ c : Candidate, (e.evaluate s c).2 = c.after s (e.visits s c.id (c.view s))

theorem evaluate_eq (e : Evaluator) (s : Store) (c : Candidate) :
    e.evaluate s c = (e.answer s c.id (c.view s), (e.evaluate s c).2) := by
  rw [← evaluate_fst]

theorem same_evaluate (e : Evaluator) (s : Store) (c : Candidate) :
    Candidate.Same s c (e.evaluate s c).2 := by
  obtain ⟨d, hd, hsame⟩ := faithful s e c
  rw [hd]
  exact hsame

/-- What comes after the first tree goes on with the candidate that this tree leaves. -/
theorem Traced.after_append {e : Evaluator} (h : Traced s e) (c : Candidate) (ls : List Leaf) :
    c.after s (e.visits s c.id (c.view s) ++ ls) = (e.evaluate s c).2.after s ls := by
  rw [h c, Candidate.after, List.foldl_append]
  rfl

theorem evaluateAll_traced {es : List Evaluator} (h : ∀ e ∈ es, Traced s e) (c : Candidate) :
    (evaluateAll s es c).2 = c.after s (visitsAll s c.id (c.view s) es) := by
  induction es generalizing c with
  | nil => rfl
  | cons e es ih =>
    obtain ⟨he, hes⟩ := List.forall_mem_cons.mp h
    obtain ⟨hid, hview⟩ := same_evaluate e s c
    rw [evaluateAll, visitsAll, evaluate_eq]
    cases e.answer s c.id (c.view s) with
    | error err => exact he c
    | ok b =>
      cases b with
      | false => exact he c
      | true =>
        rw [he.after_append]
        have hrest := ih hes (e.evaluate s c).2
        rwa [hid, hview] at hrest

theorem evaluateAny_traced {es : List Evaluator} (h : ∀ e ∈ es, Traced s e) (c : Candidate) :
    (evaluateAny s es c).2 = c.after s (visitsAny s c.id (c.view s) es) := by
  induction es generalizing c with
  | nil => rfl
  | cons e es ih =>
    obtain ⟨he, hes⟩ := List.forall_mem_cons.mp h
    obtain ⟨hid, hview⟩ := same_evaluate e s c
    rw [evaluateAny, visitsAny, evaluate_eq]
    cases e.answer s c.id (c.view s) with
    | error err => exact he c
    | ok b =>
      cases b with
      | true => exact he c
      | false =>
        rw [he.after_append]
        have hrest := ih hes (e.evaluate s c).2
        rwa [hid, hview] at hrest

theorem traced (s : Store) (e : Evaluator) : Traced s e := by
  induction e using Evaluator.induction with
  | leaf l => exact fun c => rfl
  | and es ih => exact evaluateAll_traced ih
  | or es ih => exact evaluateAny_traced ih
  | not e ih =>
    intro c
    rw [evaluate, visits, ← ih c]
    rcases e.evaluate s c with ⟨_ | b, d⟩ <;> rfl

/-- What the candidate is after the evaluation. -/
theorem evaluate_snd (e : Evaluator) (s : Store) (c : Candidate) :
    (e.evaluate s c).2 =
      { id := c.id
        key := (e.notes s c.id (c.view s)).getLast?.or c.key
        entry := if (e.visits s c.id (c.view s)).all fun l => (l.index? s).isSome then c.entry
          else c.view s } := by
  rw [traced, Candidate.after_eq]
  rfl

/-- The entry of the candidate, once it is at hand, is kept. -/
theorem entry_evaluate {c : Candidate} {x : Entry} (e : Evaluator) (s : Store)
    (hx : x ∈ c.entry) : x ∈ (e.evaluate s c).2.entry := by
  have hview : x ∈ c.view s := by rw [Candidate.view, Option.mem_def.mp hx]; rfl
  rw [e.evaluate_snd]
  split <;> assumption

/-- Every key is kept just if none is noted. -/
theorem notes_eq_nil_iff (e : Evaluator) (s : Store) (c : Candidate) :
    e.notes s c.id (c.view s) = [] ↔
      ∀ k, (e.evaluate s { c with key := some k }).2.key = some k := by
  have hkey : ∀ k, (e.evaluate s { c with key := some k }).2.key =
      (e.notes s c.id (c.view s)).getLast?.or (some k) := fun k => by
    rw [e.evaluate_snd]
    rfl
  simp only [hkey]
  constructor
  · intro hnotes k
    rw [hnotes]
    rfl
  · intro hkept
    rw [← List.getLast?_eq_none_iff]
    by_contra hlast
    obtain ⟨k, hk⟩ := Option.ne_none_iff_exists'.mp hlast
    have hzero := hkept (.integer 0)
    have hone := hkept (.integer 1)
    rw [hk] at hzero hone
    cases hzero
    cases hone

end Evaluator

/-! ### One evaluation after the other -/

namespace Candidate

/-- The candidate after evaluations, for each of which the store is as it is then. -/
def run (c : Candidate) (xs : List (Store × Evaluator)) : Candidate :=
  xs.foldl (fun c x => (x.2.evaluate x.1 c).2) c

/-- The keys that the evaluations note, in this order. -/
def notesIn : Candidate → List (Store × Evaluator) → List NormalValue
  | _, [] => []
  | c, (s, e) :: xs => e.notes s c.id (c.view s) ++ notesIn (e.evaluate s c).2 xs

theorem run_cons (c : Candidate) (s : Store) (e : Evaluator) (xs : List (Store × Evaluator)) :
    c.run ((s, e) :: xs) = (e.evaluate s c).2.run xs := rfl

theorem id_run (c : Candidate) (xs : List (Store × Evaluator)) : (c.run xs).id = c.id := by
  induction xs generalizing c with
  | nil => rfl
  | cons x xs ih =>
    obtain ⟨s, e⟩ := x
    rw [run_cons, ih, e.evaluate_snd]

theorem entry_run {c : Candidate} {x : Entry} (xs : List (Store × Evaluator))
    (hx : x ∈ c.entry) : x ∈ (c.run xs).entry := by
  induction xs generalizing c with
  | nil => exact hx
  | cons y xs ih =>
    obtain ⟨s, e⟩ := y
    exact ih (e.entry_evaluate s hx)

theorem key_run (c : Candidate) (xs : List (Store × Evaluator)) :
    (c.run xs).key = (c.notesIn xs).getLast?.or c.key := by
  induction xs generalizing c with
  | nil => rfl
  | cons x xs ih =>
    obtain ⟨s, e⟩ := x
    rw [run_cons, ih, notesIn, List.getLast?_append, Option.or_assoc, e.evaluate_snd]

end Candidate

/-- **The record of a candidate.** An evaluation leaves the id alone, and the entry if it is at
hand; otherwise the entry is looked up in the store if some assertion without an index is asked. The
key is the one noted last, whatever was there before. So nothing takes the place of a key just if
all the keys noted are the same as the one that is there, and every key stays just if no assertion
that is asked holds and is keyed. A key that is noted satisfies the condition of an assertion that
holds. The same goes for a candidate that is handed from one evaluation to the next, while the store
may change. -/
theorem Evaluator.evaluate_bookkeeping (s : Store) (e : Evaluator) (c : Candidate) :
    let d := (e.evaluate s c).2
    let seen := c.view s
    let asked := e.visits s c.id seen
    let noted := e.notes s c.id seen
    d.id = c.id ∧ (∀ x ∈ c.entry, x ∈ d.entry) ∧
      (c.entry = none → d.entry =
        if asked.all fun l => (l.index? s).isSome then none else s.entry? c.id) ∧
      d.key = noted.getLast?.or c.key ∧
      (c.WritesOnce s asked ↔ (c.key.toList ++ noted).IsChain (· = ·)) ∧
      ((∀ k, (e.evaluate s { c with key := some k }).2.key = some k) ↔
        ∀ l ∈ asked, l.answer s c.id seen = .ok true → l.Keyed s = false) ∧
      (∀ k ∈ noted, ∃ l ∈ asked, l.answer s c.id seen = .ok true ∧
        l.condition.acceptsKey k = true) ∧
      ∀ xs : List (Store × Evaluator), (c.run xs).id = c.id ∧
        (∀ x ∈ c.entry, x ∈ (c.run xs).entry) ∧
        (c.run xs).key = (c.notesIn xs).getLast?.or c.key := by
  intro d seen asked noted
  have hd : d = _ := e.evaluate_snd s c
  refine ⟨by rw [hd], fun x hx => e.entry_evaluate s hx, fun hnone => ?_, by rw [hd],
    c.writesOnce_iff s asked, ?_, fun k hk => ?_, fun xs => ?_⟩
  · have hseen : seen = s.entry? c.id := by
      simp only [seen, Candidate.view, hnone, Option.none_or]
    rw [hd, ← hseen, ← hnone]
  · rw [← e.notes_eq_nil_iff, notes, Candidate.keysOf, List.filterMap_eq_nil_iff]
    refine forall₂_congr fun l _ => ?_
    rw [← Option.not_isSome_iff_eq_none, Leaf.isSome_notedKey_iff, not_and, Bool.not_eq_true]
  · obtain ⟨l, hl, hnote⟩ := List.mem_filterMap.mp hk
    obtain ⟨hanswer, -⟩ := Leaf.isSome_notedKey_iff.mp (Option.isSome_of_mem hnote)
    exact ⟨l, hl, hanswer, Leaf.acceptsKey_of_mem_notedKey hnote⟩
  · exact ⟨c.id_run xs, fun x hx => Candidate.entry_run xs hx, c.key_run xs⟩

/-- One common name takes the place of another one, in a store that writes lead to and with trees
that are built for it. -/
theorem exists_replaced_key :
    let x := Entry.ofAttributes 1 "" [("cn", ["a", "b"])]
    let s := (Store.new "people").performAll .people [.addEntry x]
    let c : Candidate := { id := 1, key := some (.text "a"), entry := some x }
    s.Reachable .people ∧
      (∃ e, Evaluator.build s .people (.assertion (.equality "cn" "a")) = .ok e ∧
        (e.evaluate s (.new 1)).2 = c) ∧
      ∃ e, Evaluator.build s .people (.assertion (.equality "cn" "b")) = .ok e ∧
        (e.evaluate s c).2 = { c with key := some (.text "b") } := by
  intro x s c
  exact ⟨(Store.Reachable.new "people").performAll _,
    exists_eq_ok_of_decide (by decide +kernel), exists_eq_ok_of_decide (by decide +kernel)⟩

end Directory
