import Directory.Proofs.PatternMeaning
import Directory.Proofs.Planning
import Directory.Proofs.StoreSync

/-!
# What a single assertion finds

An assertion puts a condition on values. It is answered in three ways, all of which come down to
`Condition.acceptsKey`, the condition as one on canonical forms:

* on the raw values of an entry (`accepts_iff`);
* on the keys that an index has for an entry (`testIndex_holds_iff`), where the presence index
  stands in for the index on the attribute;
* by a stretch of an index, which gives the candidates (`mem_candidates_iff`). Texts that begin
  alike stand together, so that a substring pattern with a fixed beginning has a stretch as well.
-/

namespace Directory

/-! ### Answers -/

@[simp] theorem Answer.holds_ofBool (b : Bool) (key : Option NormalValue) :
    (Answer.ofBool b key).holds = b := by
  cases b <;> rfl

/-- The first positive answer tells whether there is one, when every answer before it is known. -/
theorem holds_firstYes {test : String → Except SchemaError Answer} {raws : List String} {a : Answer}
    (h : firstYes test raws = .ok a) :
    a.holds = true ↔ ∃ raw ∈ raws, ∃ key, test raw = .ok (.yes key) := by
  induction raws with
  | nil =>
    cases h
    simp [Answer.holds]
  | cons raw raws ih =>
    obtain ⟨b, hb, hrest⟩ := bind_eq_ok_iff.mp h
    cases b with
    | no =>
      rw [ih hrest]
      simp [hb]
    | yes key =>
      cases hrest
      simp [Answer.holds, hb]

/-- The values of a list can be looked through if each of them can be tested. -/
theorem exists_firstYes {test : String → Except SchemaError Answer} {raws : List String}
    (h : ∀ raw ∈ raws, ∃ a, test raw = .ok a) : ∃ a, firstYes test raws = .ok a := by
  induction raws with
  | nil => exact ⟨.no, rfl⟩
  | cons raw raws ih =>
    obtain ⟨⟨a, ha⟩, hrest⟩ := List.forall_mem_cons.mp h
    cases a with
    | no =>
      obtain ⟨b, hb⟩ := ih hrest
      exact ⟨b, bind_eq_ok_iff.mpr ⟨.no, ha, hb⟩⟩
    | yes key => exact ⟨.yes key, bind_eq_ok_iff.mpr ⟨.yes key, ha, rfl⟩⟩

namespace Condition

/-- The rule under which values are read, unless any value will do. -/
def rule? : Condition → Option MatchingRule
  | equals _ rule _ | bounded _ rule _ | like rule _ => some rule
  | present => none

theorem rule?_eq_none_iff {c : Condition} : c.rule? = none ↔ c = present := by
  cases c <;> simp [rule?]

/-- A value of this canonical form satisfies the condition. -/
def acceptsKey : Condition → NormalValue → Bool
  | equals _ _ value, key => decide (key = value)
  | bounded side _ bound, key => side.holds (compare key bound)
  | present, _ => true
  | like _ pattern, key => pattern.accepts key

/-- The raw value satisfies the condition. -/
def Accepts (c : Condition) (raw : String) : Prop := ∃ key, c.test raw = .ok (.yes key)

theorem accepts_present (raw : String) : present.Accepts raw := ⟨none, rfl⟩

/-- A raw value satisfies a condition through its canonical form under the rule. -/
theorem accepts_iff {c : Condition} {rule : MatchingRule} (hrule : c.rule? = some rule)
    {raw : String} :
    c.Accepts raw ↔ ∃ key, rule.normalize raw = .ok key ∧ c.acceptsKey key = true := by
  have hread : ∀ (p : NormalValue → Bool) (note : NormalValue → Option NormalValue),
      (∃ key, (do let v ← rule.normalize raw; return Answer.ofBool (p v) (note v)) =
        Except.ok (.yes key)) ↔ ∃ key, rule.normalize raw = .ok key ∧ p key = true := by
    intro p note
    simp only [bind_eq_ok_iff]
    constructor
    · rintro ⟨_, v, hv, h⟩
      refine ⟨v, hv, ?_⟩
      rw [← Answer.holds_ofBool (p v) (note v), Except.ok.inj h]
      rfl
    · rintro ⟨v, hv, hp⟩
      exact ⟨note v, v, hv, by rw [hp]; rfl⟩
  cases c with
  | equals approx rule' value =>
    cases hrule
    simp only [acceptsKey, ← compare_beq_eq, ← MatchingRule.compare_eq rule]
    exact hread (fun v => rule.compare v value == .eq) fun _ => some value
  | bounded side rule' bound =>
    cases hrule
    simp only [acceptsKey, ← MatchingRule.compare_eq rule]
    exact hread (fun v => side.holds (rule.compare v bound)) some
  | present => cases hrule
  | like rule' pattern =>
    cases hrule
    exact hread pattern.accepts fun _ => none

variable {r : Registry} {s : Store} {ix : AttributeIndex} {id : EntryId}

/-- An index answers by the keys that it has for the entry. -/
theorem testIndex_holds_iff (hs : s.Synced r) (hix : ix ∈ s.indexes) (c : Condition) :
    (c.testIndex s ix id).holds = true ↔
      ∃ key, (key, id) ∈ ix.postings.forward ∧ c.acceptsKey key = true := by
  have hkeys : ∀ key, key ∈ ix.keysOf id ↔ (key, id) ∈ ix.postings.forward := fun key => by
    rw [AttributeIndex.keysOf, Postings.mem_keysOf, hs.mirrored ix hix]
  cases c with
  | equals approx rule value =>
    simp [testIndex, acceptsKey, AttributeIndex.holds, SortedSet.contains_iff]
  | bounded side rule bound =>
    cases side <;>
      simp [testIndex, acceptsKey, Side.holds, AttributeIndex.hasKeyAtLeast,
        AttributeIndex.hasKeyAtMost, MatchingRule.compare_eq, hkeys]
  | present =>
    have hmark : s.presence.holds (presenceKey ix) id = true ↔
        ∃ ix' ∈ s.indexes, ix.attr.oid = ix'.attr.oid ∧ ∃ k, (k, id) ∈ ix'.postings.forward := by
      rw [AttributeIndex.holds, SortedSet.contains_iff, hs.presence, presenceKey]
      simp only [NormalValue.text.injEq]
    simp only [testIndex, Answer.holds_ofBool, acceptsKey, and_true, hmark]
    constructor
    · rintro ⟨ix', hix', hoid, hk⟩
      rwa [List.inj_on_of_nodup_map hs.distinct hix hix' hoid]
    · rintro hk
      exact ⟨ix, hix, rfl, hk⟩
  | like rule pattern =>
    simp only [testIndex, acceptsKey]
    cases hfind : (ix.keysOf id).find? pattern.accepts with
    | none =>
      have hnone := List.find?_eq_none.mp hfind
      simp only [hkeys] at hnone
      simpa [Answer.holds] using hnone
    | some key =>
      have hmem := (hkeys key).mp (List.mem_of_find?_eq_some hfind)
      have hacc := List.find?_some hfind
      simpa [Answer.holds] using ⟨key, hmem, hacc⟩

/-- The presence index lists the entries for which it says yes. -/
theorem mem_idsWith_presence_iff :
    id ∈ s.presence.idsWith (presenceKey ix) ↔ (present.testIndex s ix id).holds = true := by
  simp [testIndex, AttributeIndex.holds, SortedSet.contains_iff, AttributeIndex.idsWith, mem_idsOf,
    Postings.mem_within_self]

end Condition

/-! ### Texts that begin alike -/

/-- Between a text and another one that begins with it, all texts begin with it. -/
theorem isPrefix_of_between {p a b : List Char} (hb : p <+: b) (hpa : ¬ List.Lex (· < ·) a p)
    (hab : ¬ List.Lex (· < ·) b a) : p <+: a := by
  induction p generalizing a b with
  | nil => exact List.nil_prefix
  | cons c p ih =>
    obtain ⟨t, rfl⟩ := hb
    cases a with
    | nil => exact absurd List.Lex.nil hpa
    | cons d a =>
      have hdc : ¬ d < c := fun h => hpa (List.Lex.rel h)
      have hcd : ¬ c < d := fun h => hab (List.Lex.rel h)
      obtain rfl : c = d := Char.le_antisymm (Char.not_lt.mp hdc) (Char.not_lt.mp hcd)
      have hp : p <+: a := ih (List.prefix_append p t) (fun h => hpa (List.Lex.cons h))
        fun h => hab (List.Lex.cons h)
      exact (List.prefix_cons_inj c).mpr hp

theorem not_lex_of_isPrefix {p a : List Char} (h : p <+: a) : ¬ List.Lex (· < ·) a p := by
  induction p generalizing a with
  | nil => exact fun hlex => nomatch hlex
  | cons c p ih =>
    obtain ⟨t, rfl⟩ := h
    intro hlex
    rcases hlex with _ | hlex | hlex
    · exact Char.lt_irrefl c hlex
    · exact ih (List.prefix_append p t) hlex

/-- A value of the form of a pattern begins as the pattern does. -/
theorem Pattern.beginsWith_of_accepts {p : Pattern} {start : String} {key : NormalValue}
    (hstart : p.initial = some start) (h : p.accepts key = true) :
    Leaf.beginsWith start key = true := by
  obtain ⟨text, rfl, middle, htext, -⟩ := Pattern.accepts_iff.mp h
  rw [hstart] at htext
  exact List.isPrefixOf_iff_prefix.mpr ⟨_, htext.symm⟩

theorem isLE_compare_text {a b : String} :
    (compare (NormalValue.text a) (.text b)).isLE = true ↔
      ¬ List.Lex (· < ·) b.toList a.toList := by
  have hle : (compareOfLessAndEq a b).isLE = true ↔ a ≤ b :=
    isLE_compareOfLessAndEq String.le_antisymm String.not_le String.le_total
  exact hle.trans String.not_lt.symm

namespace Leaf

theorem mem_pairsBeginning {ix : AttributeIndex} {start : String} {key : NormalValue}
    {id : EntryId} :
    (key, id) ∈ pairsBeginning ix start ↔
      (key, id) ∈ ix.postings.forward ∧ beginsWith start key = true := by
  have hge : ∀ k : NormalValue, (compare k (NormalValue.text start)).isGE = true ↔
      (compare (NormalValue.text start) k).isLE = true := fun k => by
    rw [Std.OrientedOrd.eq_swap (a := k), Ordering.isGE_swap]
  -- a key between the beginning and a key that begins with it
  have hclosed : (ix.postings.startingAt (.text start)).Pairwise
      fun a b => beginsWith start b.1 = true → beginsWith start a.1 = true := by
    have hkeys : (ix.postings.startingAt (.text start)).Pairwise
        fun a b => (compare a.1 b.1).isLE = true := by
      rw [Postings.startingAt_eq_filter]
      exact ix.postings.forward_keys.filter _
    rw [List.pairwise_iff_forall_sublist] at hkeys ⊢
    intro a b hab hb
    have hle := hkeys hab
    have ha : a ∈ ix.postings.startingAt (.text start) := hab.subset (by simp)
    have hstart := (hge a.1).mp (Postings.mem_startingAt.mp ha).2
    rcases a with ⟨n | t, i⟩
    · simp at hstart
    · rcases b with ⟨n | u, j⟩
      · cases hb
      · simp only [beginsWith, List.isPrefixOf_iff_prefix] at hb ⊢
        exact isPrefix_of_between hb (isLE_compare_text.mp hstart) (isLE_compare_text.mp hle)
  have hafter : beginsWith start key = true → (compare key (.text start)).isGE = true := by
    intro hkey
    cases key with
    | integer n => cases hkey
    | text t =>
      rw [hge, isLE_compare_text]
      exact not_lex_of_isPrefix (List.isPrefixOf_iff_prefix.mp hkey)
  rw [pairsBeginning, takeWhile_eq_filter hclosed, List.mem_filter, Postings.mem_startingAt]
  constructor
  · rintro ⟨⟨hmem, -⟩, hkey⟩
    exact ⟨hmem, hkey⟩
  · rintro ⟨hmem, hkey⟩
    exact ⟨⟨hmem, hafter hkey⟩, hkey⟩

/-! ### What a leaf reads -/

variable {r : Registry} {s : Store} {l : Leaf} {ix : AttributeIndex} {e : Entry} {id : EntryId}

theorem index?_mem (h : l.index? s = some ix) : ix ∈ s.indexes := by
  obtain ⟨t, -, ht⟩ := Option.bind_eq_some_iff.mp h
  exact List.mem_of_find?_eq_some ht

/-- The assertion holds of the entry: of its keys if an index answers, and otherwise of one of its
values. -/
def Reads (l : Leaf) (s : Store) (e : Entry) : Prop :=
  match l.index? s with
  | some ix => (l.condition.testIndex s ix e.id).holds = true
  | none => ∃ raw ∈ l.valuesIn e, l.condition.Accepts raw

theorem reads_of_index (h : l.index? s = some ix) :
    l.Reads s e ↔ (l.condition.testIndex s ix e.id).holds = true := by
  rw [Reads, h]

theorem reads_of_no_index (h : l.index? s = none) :
    l.Reads s e ↔ ∃ raw ∈ l.valuesIn e, l.condition.Accepts raw := by
  rw [Reads, h]

/-- A leaf that answers tells what it reads. -/
theorem truthful_reads (s : Store) (e : Entry) :
    Evaluator.Truthful (fun l => l.Reads s e) s e.id (some e) := by
  intro l b hb
  cases hix : l.index? s with
  | some ix =>
    rw [answer, hix] at hb
    show b = true ↔ l.Reads s e
    rw [reads_of_index hix, Except.ok.inj hb]
  | none =>
    rw [answer, hix] at hb
    obtain ⟨a, ha, rfl⟩ := map_eq_ok_iff.mp (mapError_eq_ok_iff.mp hb)
    exact (holds_firstYes ha).trans (reads_of_no_index hix).symm

/-- An entry whose values can be tested can be evaluated. -/
theorem exists_answer_of_test (h : ∀ raw ∈ l.valuesIn e, ∃ a, l.condition.test raw = .ok a) :
    ∃ b, l.answer s id (some e) = .ok b := by
  cases hix : l.index? s with
  | some ix => exact ⟨(l.condition.testIndex s ix id).holds, by rw [answer, hix]⟩
  | none =>
    obtain ⟨a, ha⟩ := exists_firstYes h
    refine ⟨a.holds, ?_⟩
    rw [answer, hix]
    exact mapError_eq_ok_iff.mpr (map_eq_ok_iff.mpr ⟨a, ha, rfl⟩)

/-- Only an index bounds the candidates. -/
theorem exists_index_of_bounded {ids : SortedSet EntryId}
    (h : (l.candidates s).1 = .bounded ids) : ∃ ix, l.index? s = some ix := by
  unfold candidates at h
  cases hix : l.index? s with
  | none => rw [hix] at h; cases h
  | some ix => exact ⟨ix, rfl⟩

/-- The candidates for an assertion are the entries for which its index has a key that satisfies
it, neither more nor fewer. -/
theorem mem_candidates_iff (hs : s.Synced r) (hix : l.index? s = some ix)
    {ids : SortedSet EntryId} (h : (l.candidates s).1 = .bounded ids) :
    id ∈ ids ↔ (l.condition.testIndex s ix id).holds = true := by
  rw [Condition.testIndex_holds_iff hs (index?_mem hix)]
  unfold candidates at h
  rw [hix] at h
  rcases hc : l.condition with
    ⟨approx, rule, value⟩ | ⟨_ | _, rule, bound⟩ | _ | ⟨rule, pattern⟩ <;> rw [hc] at h
  · cases h
    simp [AttributeIndex.idsWith, mem_idsOf, Postings.mem_within_self, Condition.acceptsKey]
  · cases h
    simp [AttributeIndex.idsAtLeast, mem_idsOf, Postings.mem_startingAt, Condition.acceptsKey,
      Side.holds]
  · cases h
    simp [AttributeIndex.idsAtMost, mem_idsOf, Postings.mem_endingAt, Condition.acceptsKey,
      Side.holds]
  · cases h
    rw [← Condition.testIndex_holds_iff hs (index?_mem hix)]
    exact Condition.mem_idsWith_presence_iff
  · cases hstart : pattern.initial with
    | none => simp [hstart] at h
    | some start =>
      simp only [hstart] at h
      cases h
      simp only [mem_idsOf, List.mem_filter, mem_pairsBeginning, Condition.acceptsKey]
      refine exists_congr fun key => ⟨?_, ?_⟩
      · rintro ⟨⟨hmem, -⟩, hacc⟩
        exact ⟨hmem, hacc⟩
      · rintro ⟨hmem, hacc⟩
        exact ⟨⟨hmem, Pattern.beginsWith_of_accepts hstart hacc⟩, hacc⟩

/-- A leaf admits the entries of which it holds. -/
theorem admits_of_reads (hs : s.Synced r) (h : l.Reads s e) :
    (l.candidates s).1.Admits e.id := by
  intro ids hids
  obtain ⟨ix, hix⟩ := exists_index_of_bounded hids
  rwa [mem_candidates_iff hs hix hids, ← reads_of_index hix]

end Leaf

/-! ### What a filter reads -/

/-- The filter holds of the entry, with its assertions bound to the store `s` and read in the store
`m`. -/
def Filter.ReadsIn (r : Registry) (s m : Store) (f : Filter) (e : Entry) : Prop :=
  f.Holds fun a => ∃ l, Leaf.bind s r a = .ok l ∧ l.Reads m e

/-- The entry is stored in this form, and the filter holds of it as a search that starts now would
read it. -/
def Store.Accepts (s : Store) (r : Registry) (f : Filter) (e : Entry) : Prop :=
  s.entry? e.id = some e ∧ f.ReadsIn r s s e

end Directory
