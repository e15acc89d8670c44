import Directory.Proofs.Checks
import Directory.Search.Evaluator

/-!
# What an evaluation decides

A candidate carries what earlier assertions learned about it, but an answer never depends on more
than its id and the entry that it stands for. `Evaluator.answer` is the evaluation without the
bookkeeping, and `evaluate_eq_answer` says that the bookkeeping changes nothing.

An evaluation stops early, and it can fail. `Evaluator.Holds P` is the statement of the tree with
`P` for its leaves, without an order of evaluation. When an evaluation answers, it answers this
statement (`holds_iff_of_answer`).
-/

namespace Directory

/-! ### Induction on trees -/

/-- What holds of a tree as soon as it holds of its children holds of all trees. -/
theorem Evaluator.induction {motive : Evaluator → Prop} (leaf : ∀ l, motive (.leaf l))
    (and : ∀ es, (∀ e ∈ es, motive e) → motive (.and es))
    (or : ∀ es, (∀ e ∈ es, motive e) → motive (.or es))
    (not : ∀ e, motive e → motive (.not e)) : ∀ e, motive e
  | .leaf l => leaf l
  | .and es => and es fun e _ => Evaluator.induction leaf and or not e
  | .or es => or es fun e _ => Evaluator.induction leaf and or not e
  | .not e => not e (Evaluator.induction leaf and or not e)

/-! ### The entry behind a candidate -/

namespace Candidate

variable {s : Store} {c d : Candidate}

/-- The entry that the candidate stands for: the one at hand, or else the one in the store. -/
def view (c : Candidate) (s : Store) : Option Entry := c.entry.or (s.entry? c.id)

/-- More may have been learned about the second candidate, but it is the same one. -/
def Same (s : Store) (c d : Candidate) : Prop := d.id = c.id ∧ d.view s = c.view s

theorem Same.refl (s : Store) (c : Candidate) : Same s c c := ⟨rfl, rfl⟩

theorem Same.trans {b : Candidate} (h : Same s b c) (h' : Same s c d) : Same s b d :=
  ⟨h'.1.trans h.1, h'.2.trans h.2⟩

@[simp] theorem view_new (s : Store) (id : EntryId) : (new id).view s = s.entry? id := rfl

@[simp] theorem view_ofEntry (s : Store) (e : Entry) : (ofEntry e).view s = some e := rfl

theorem resolve_fst (c : Candidate) (s : Store) : (c.resolve s).1 = c.view s := by
  unfold resolve view
  cases c.entry with
  | some e => rfl
  | none => cases s.entry? c.id <;> rfl

theorem same_resolve (c : Candidate) (s : Store) : Same s c (c.resolve s).2 := by
  unfold resolve
  cases hc : c.entry with
  | some e => exact Same.refl s c
  | none =>
    cases hs : s.entry? c.id with
    | some e => exact ⟨rfl, by simp [view, hc, hs]⟩
    | none => exact Same.refl s c

theorem same_recordIn (c : Candidate) (a : Answer) : Same s c (a.recordIn c) := by
  cases a with
  | no => exact Same.refl s c
  | yes key => exact ⟨rfl, rfl⟩

end Candidate

/-! ### The answer of a leaf -/

namespace Leaf

variable {s : Store}

/-- Whether the entry with this id satisfies the assertion, where `seen` is the entry itself if it
is there. Only an assertion without an index looks at the entry. -/
def answer (l : Leaf) (s : Store) (id : EntryId) (seen : Option Entry) : Except SearchError Bool :=
  match l.index? s with
  | some ix => .ok (l.condition.testIndex s ix id).holds
  | none =>
    match seen with
    | none => .ok false
    | some e => ((l.testEntry e).map Answer.holds).mapError .ofSchema

theorem evaluate_eq_answer (l : Leaf) (s : Store) (c : Candidate) :
    ∃ d, l.evaluate s c = (l.answer s c.id (c.view s), d) ∧ Candidate.Same s c d := by
  unfold evaluate answer
  cases l.index? s with
  | some ix => exact ⟨_, rfl, Candidate.same_recordIn c _⟩
  | none =>
    have hsame := Candidate.same_resolve c s
    rw [← Candidate.resolve_fst]
    rcases hr : c.resolve s with ⟨_ | e, d⟩ <;> rw [hr] at hsame
    · exact ⟨d, rfl, hsame⟩
    · cases ht : l.testEntry e with
      | error err => exact ⟨d, by simp [ht, Except.map, Except.mapError], hsame⟩
      | ok a =>
        refine ⟨a.recordIn d, by simp [ht, Except.map, Except.mapError], ?_⟩
        exact hsame.trans (Candidate.same_recordIn d a)

/-- An entry that is not there satisfies an assertion or it does not, but it cannot be malformed. -/
theorem answer_none (l : Leaf) (s : Store) (id : EntryId) : ∃ b, l.answer s id none = .ok b := by
  unfold answer
  cases l.index? s with
  | some ix => exact ⟨_, rfl⟩
  | none => exact ⟨false, rfl⟩

end Leaf

/-! ### The answer of a tree -/

namespace Evaluator

mutual

/-- Whether the entry with this id matches, where `seen` is the entry itself if it is there. -/
def answer (s : Store) (id : EntryId) (seen : Option Entry) : Evaluator → Except SearchError Bool
  | leaf l => l.answer s id seen
  | and children => answerAll s id seen children
  | or children => answerAny s id seen children
  | not child => (answer s id seen child).map Bool.not
  termination_by structural e => e

/-- Whether the entry matches every child. -/
def answerAll (s : Store) (id : EntryId) (seen : Option Entry) :
    List Evaluator → Except SearchError Bool
  | [] => .ok true
  | e :: es =>
    match answer s id seen e with
    | .ok true => answerAll s id seen es
    | a => a
  termination_by structural es => es

/-- Whether the entry matches some child. -/
def answerAny (s : Store) (id : EntryId) (seen : Option Entry) :
    List Evaluator → Except SearchError Bool
  | [] => .ok false
  | e :: es =>
    match answer s id seen e with
    | .ok false => answerAny s id seen es
    | a => a
  termination_by structural es => es

end

variable {s : Store}

/-- The evaluation of the tree is its answer, and the candidate stays the same one. -/
def Faithful (s : Store) (e : Evaluator) : Prop :=
  ∀ c : Candidate, ∃ d, e.evaluate s c = (e.answer s c.id (c.view s), d) ∧ Candidate.Same s c d

theorem evaluateAll_eq_answerAll {es : List Evaluator} (h : ∀ e ∈ es, Faithful s e)
    (c : Candidate) :
    ∃ d, evaluateAll s es c = (answerAll s c.id (c.view s) es, d) ∧ Candidate.Same s c d := by
  induction es generalizing c with
  | nil => exact ⟨c, rfl, Candidate.Same.refl s c⟩
  | cons e es ih =>
    obtain ⟨d, hd, hsame⟩ := h e (by simp) c
    rw [evaluateAll, answerAll, hd]
    cases ha : e.answer s c.id (c.view s) with
    | error err => exact ⟨d, rfl, hsame⟩
    | ok b =>
      cases b with
      | false => exact ⟨d, rfl, hsame⟩
      | true =>
        -- the next child gets what this one has learned, about the same entry
        obtain ⟨d', hd', hsame'⟩ := ih (fun e' he' => h e' (by simp [he'])) d
        rw [hsame.1, hsame.2] at hd'
        exact ⟨d', hd', hsame.trans hsame'⟩

theorem evaluateAny_eq_answerAny {es : List Evaluator} (h : ∀ e ∈ es, Faithful s e)
    (c : Candidate) :
    ∃ d, evaluateAny s es c = (answerAny s c.id (c.view s) es, d) ∧ Candidate.Same s c d := by
  induction es generalizing c with
  | nil => exact ⟨c, rfl, Candidate.Same.refl s c⟩
  | cons e es ih =>
    obtain ⟨d, hd, hsame⟩ := h e (by simp) c
    rw [evaluateAny, answerAny, hd]
    cases ha : e.answer s c.id (c.view s) with
    | error err => exact ⟨d, rfl, hsame⟩
    | ok b =>
      cases b with
      | true => exact ⟨d, rfl, hsame⟩
      | false =>
        obtain ⟨d', hd', hsame'⟩ := ih (fun e' he' => h e' (by simp [he'])) d
        rw [hsame.1, hsame.2] at hd'
        exact ⟨d', hd', hsame.trans hsame'⟩

/-- What is learned about a candidate on the way does not change any answer. -/
theorem faithful (s : Store) (e : Evaluator) : Faithful s e := by
  induction e using Evaluator.induction with
  | leaf l => exact fun c => l.evaluate_eq_answer s c
  | and es ih => exact fun c => evaluateAll_eq_answerAll ih c
  | or es ih => exact fun c => evaluateAny_eq_answerAny ih c
  | not e ih =>
    intro c
    obtain ⟨d, hd, hsame⟩ := ih c
    refine ⟨d, ?_, hsame⟩
    rw [evaluate, answer, hd]
    cases e.answer s c.id (c.view s) <;> rfl

theorem evaluate_fst (e : Evaluator) (s : Store) (c : Candidate) :
    (e.evaluate s c).1 = e.answer s c.id (c.view s) := by
  obtain ⟨d, hd, -⟩ := faithful s e c
  rw [hd]

/-! ### The statement of a tree -/

mutual

/-- The statement of the tree, where `P` is what its leaves state. -/
def Holds (P : Leaf → Prop) : Evaluator → Prop
  | leaf l => P l
  | and children => HoldsAll P children
  | or children => HoldsAny P children
  | not child => ¬ Holds P child
  termination_by structural e => e

/-- Every child holds. -/
def HoldsAll (P : Leaf → Prop) : List Evaluator → Prop
  | [] => True
  | e :: es => Holds P e ∧ HoldsAll P es
  termination_by structural es => es

/-- Some child holds. -/
def HoldsAny (P : Leaf → Prop) : List Evaluator → Prop
  | [] => False
  | e :: es => Holds P e ∨ HoldsAny P es
  termination_by structural es => es

end

variable {P : Leaf → Prop} {id : EntryId} {seen : Option Entry}

theorem holdsAll_iff {es : List Evaluator} : HoldsAll P es ↔ ∀ e ∈ es, Holds P e := by
  induction es with
  | nil => simp [HoldsAll]
  | cons e es ih => rw [HoldsAll, ih, List.forall_mem_cons]

theorem holdsAny_iff {es : List Evaluator} : HoldsAny P es ↔ ∃ e ∈ es, Holds P e := by
  induction es with
  | nil => simp [HoldsAny]
  | cons e es ih => rw [HoldsAny, ih, List.exists_mem_cons_iff]

@[simp] theorem holds_leaf {l : Leaf} : Holds P (leaf l) ↔ P l := Iff.rfl

@[simp] theorem holds_and {es : List Evaluator} : Holds P (and es) ↔ ∀ e ∈ es, Holds P e :=
  holdsAll_iff

@[simp] theorem holds_or {es : List Evaluator} : Holds P (or es) ↔ ∃ e ∈ es, Holds P e :=
  holdsAny_iff

@[simp] theorem holds_not {e : Evaluator} : Holds P (not e) ↔ ¬ Holds P e := Iff.rfl

/-- When the leaves that answer answer `P`, a tree that answers answers its statement. -/
def Truthful (P : Leaf → Prop) (s : Store) (id : EntryId) (seen : Option Entry) : Prop :=
  ∀ (l : Leaf) (b : Bool), l.answer s id seen = .ok b → (b = true ↔ P l)

theorem holdsAll_iff_of_answerAll {es : List Evaluator}
    (h : ∀ e ∈ es, ∀ b, e.answer s id seen = .ok b → (b = true ↔ Holds P e)) {b : Bool}
    (hb : answerAll s id seen es = .ok b) : b = true ↔ HoldsAll P es := by
  induction es with
  | nil =>
    cases hb
    simp [HoldsAll]
  | cons e es ih =>
    rw [answerAll] at hb
    rw [HoldsAll]
    cases ha : e.answer s id seen with
    | error err => rw [ha] at hb; cases hb
    | ok b' =>
      have he := h e (by simp) b' ha
      rw [ha] at hb
      cases b' with
      | false =>
        cases hb
        simp [← he]
      | true =>
        rw [← ih (fun e' he' => h e' (by simp [he'])) hb]
        simp [← he]

theorem holdsAny_iff_of_answerAny {es : List Evaluator}
    (h : ∀ e ∈ es, ∀ b, e.answer s id seen = .ok b → (b = true ↔ Holds P e)) {b : Bool}
    (hb : answerAny s id seen es = .ok b) : b = true ↔ HoldsAny P es := by
  induction es with
  | nil =>
    cases hb
    simp [HoldsAny]
  | cons e es ih =>
    rw [answerAny] at hb
    rw [HoldsAny]
    cases ha : e.answer s id seen with
    | error err => rw [ha] at hb; cases hb
    | ok b' =>
      have he := h e (by simp) b' ha
      rw [ha] at hb
      cases b' with
      | true =>
        cases hb
        simp [← he]
      | false =>
        rw [← ih (fun e' he' => h e' (by simp [he'])) hb]
        simp [← he]

/-- **An evaluation that answers answers the statement of its tree**, however early it stops. -/
theorem holds_iff_of_answer (hP : Truthful P s id seen) {e : Evaluator} {b : Bool}
    (hb : e.answer s id seen = .ok b) : b = true ↔ Holds P e := by
  induction e using Evaluator.induction generalizing b with
  | leaf l => exact hP l b hb
  | and es ih => exact holdsAll_iff_of_answerAll (fun e he b => ih e he) hb
  | or es ih => exact holdsAny_iff_of_answerAny (fun e he b => ih e he) hb
  | not e ih =>
    obtain ⟨b', hb', rfl⟩ := map_eq_ok_iff.mp hb
    rw [holds_not, ← ih hb']
    cases b' <;> simp

/-! ### Evaluations without a failure -/

theorem exists_answerAll {es : List Evaluator} (h : ∀ e ∈ es, ∃ b, e.answer s id seen = .ok b) :
    ∃ b, answerAll s id seen es = .ok b := by
  induction es with
  | nil => exact ⟨true, rfl⟩
  | cons e es ih =>
    obtain ⟨b, hb⟩ := h e (by simp)
    rw [answerAll, hb]
    cases b with
    | false => exact ⟨false, rfl⟩
    | true => exact ih fun e' he' => h e' (by simp [he'])

theorem exists_answerAny {es : List Evaluator} (h : ∀ e ∈ es, ∃ b, e.answer s id seen = .ok b) :
    ∃ b, answerAny s id seen es = .ok b := by
  induction es with
  | nil => exact ⟨false, rfl⟩
  | cons e es ih =>
    obtain ⟨b, hb⟩ := h e (by simp)
    rw [answerAny, hb]
    cases b with
    | true => exact ⟨true, rfl⟩
    | false => exact ih fun e' he' => h e' (by simp [he'])

/-- Only the values of an entry can make an evaluation fail. -/
theorem exists_answer_none (e : Evaluator) (s : Store) (id : EntryId) :
    ∃ b, e.answer s id none = .ok b := by
  induction e using Evaluator.induction with
  | leaf l => exact l.answer_none s id
  | and es ih => exact exists_answerAll ih
  | or es ih => exact exists_answerAny ih
  | not e ih =>
    obtain ⟨b, hb⟩ := ih
    exact ⟨!b, map_eq_ok_iff.mpr ⟨b, hb, rfl⟩⟩

end Evaluator

end Directory
