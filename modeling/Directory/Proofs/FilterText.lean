import Directory.Proofs.FilterAlgebra
import Directory.Proofs.PatternText
import Directory.Proofs.PlanTree
import Directory.Search.Explain

/-!
# The written form of filters

Filters are written as they are, with nothing escaped. So the text of a filter says which filter it
is only as long as the values in it do not look like something else (`Filter.display_determines`).

* Behind a parenthesis that closes an assertion comes another parenthesis or the end. A value may
  have closing parentheses in it if none of them has such a successor (`Contained`).
* What is written behind the sign of equality is a value, the star of a presence assertion, or a
  pattern. A value is told from the others unless it has stars that stand alone (`HasLoneStars`).

In a plan tree each assertion has a text of its own, and only the second point matters there.
-/

namespace Directory

variable {cs xs ys us vs : List Char}

/-! ### Parentheses -/

/-- The character is a parenthesis. -/
def isParenthesis (c : Char) : Bool := c == '(' || c == ')'

/-- The text can stand behind a filter: it begins with a parenthesis, or it is empty. -/
def Continues (cs : List Char) : Prop := cs.head?.all isParenthesis = true

/-- Behind each closing parenthesis in the text there is another character, which is not a
parenthesis. -/
def Contained (cs : List Char) : Prop :=
  ∀ xs ys, cs = xs ++ ')' :: ys → (ys.head?.any fun c => !isParenthesis c) = true

theorem contained_of_not_mem (h : ')' ∉ cs) : Contained cs := by
  rintro xs ys rfl
  exact absurd (List.mem_append_right _ List.mem_cons_self) h

theorem contained_cons {c : Char} : Contained (c :: cs) ↔
    (c = ')' → (cs.head?.any fun d => !isParenthesis d) = true) ∧ Contained cs := by
  constructor
  · intro h
    refine ⟨?_, fun xs ys hcs => h (c :: xs) ys (by rw [hcs, List.cons_append])⟩
    rintro rfl
    exact h [] cs rfl
  · rintro ⟨hhead, hcs⟩ xs ys h
    cases xs with
    | nil =>
      obtain ⟨rfl, rfl⟩ := List.cons.inj h
      exact hhead rfl
    | cons x xs => exact hcs xs ys (List.cons.inj h).2

/-- Containment is decided from the end of the text. -/
def decideContained : (cs : List Char) → Decidable (Contained cs)
  | [] => .isTrue (contained_of_not_mem List.not_mem_nil)
  | _ :: cs => have := decideContained cs; decidable_of_iff _ contained_cons.symm

instance : DecidablePred Contained := decideContained

theorem Contained.cons {c : Char} (hcs : Contained cs) (hc : c ≠ ')') : Contained (c :: cs) :=
  contained_cons.mpr ⟨fun h => absurd h hc, hcs⟩

/-- The parenthesis that closes a contained text is found. -/
theorem Contained.append_inj (hxs : Contained xs) (hys : Contained ys) (hus : Continues us)
    (hvs : Continues vs) (h : xs ++ ')' :: us = ys ++ ')' :: vs) : xs = ys ∧ us = vs := by
  -- if one text were longer, it would have the parenthesis that closes the other one in it
  have hlonger : ∀ {xs zs us vs : List Char}, Contained (xs ++ zs) → Continues us →
      ')' :: us = zs ++ ')' :: vs → zs = [] := by
    intro xs zs us vs hcontained hus heq
    cases zs with
    | nil => rfl
    | cons z zs =>
      obtain ⟨rfl, rfl⟩ := List.cons.inj heq
      have hother := hcontained xs zs rfl
      cases zs with
      | nil => cases hother
      | cons z zs =>
        have hparenthesis : isParenthesis z = true := hus
        rw [List.head?_cons, Option.any_some, hparenthesis] at hother
        cases hother
  rcases List.append_eq_append_iff.mp h with ⟨zs, rfl, heq⟩ | ⟨zs, rfl, heq⟩
  · obtain rfl := hlonger hys hus heq
    exact ⟨(List.append_nil xs).symm, (List.cons.inj heq).2⟩
  · obtain rfl := hlonger hxs hvs heq
    exact ⟨List.append_nil ys, (List.cons.inj heq).2.symm⟩

/-! ### Assertions -/

/-- The characters that relations and composite filters are written with. -/
def isMark (c : Char) : Bool :=
  c == '=' || c == '<' || c == '>' || c == '~' || c == '&' || c == '|' || c == '!'

/-- The text has no marks. -/
def IsDescription (attr : String) : Prop := ∀ c ∈ attr.toList, isMark c = false

/-- Letters, digits, and the characters between them are no marks. -/
theorem isDescription_of_alphanum {attr : String} (h : (attr.toList.all fun c =>
    c.isAlphanum || c == '-' || c == '.' || c == ';') = true) : IsDescription attr := by
  intro c hc
  rw [Bool.eq_false_iff]
  intro hmark
  have hallowed := List.all_eq_true.mp h c hc
  simp only [isMark, Bool.or_eq_true, beq_iff_eq, or_assoc] at hmark
  rcases hmark with rfl | rfl | rfl | rfl | rfl | rfl | rfl <;> revert hallowed <;> decide

namespace Assertion

variable {a b : Assertion}

/-- The assertion can be read off its text. -/
structure Legible (a : Assertion) : Prop where
  attr : IsDescription a.attr
  value : ∀ attr value, a = equality attr value → ¬HasLoneStars value.toList
  pattern : ∀ attr pattern, a = substring attr pattern → pattern.Clear

/-- The assertion can be read off its text, also when other filters are written behind it. -/
structure Enclosed (a : Assertion) : Prop extends Legible a where
  contained : Contained a.relationText

/-- What is related, and how, is told by the text behind the attribute. -/
theorem eq_of_relationText_eq (ha : a.Legible) (hb : b.Legible) (hattr : a.attr = b.attr)
    (h : a.relationText = b.relationText) : a = b := by
  have hvalue : ∀ (xs : List Char) {v w : String}, xs ++ v.toList = xs ++ w.toList → v = w :=
    fun _ _ _ heq => String.toList_injective (List.append_cancel_left heq)
  have hpresence : ∀ {attr v}, (equality attr v).Legible → v.toList ≠ ['*'] := fun hv heq =>
    hv.value _ _ rfl (hasLoneStars_iff.mpr (.inl heq))
  have hpattern : ∀ {attr attr' v p}, (equality attr v).Legible → (substring attr' p).Legible →
      v.toList ≠ p.toText := fun hv hp heq =>
    hv.value _ _ rfl (hasLoneStars_iff.mpr (.inr ⟨_, hp.pattern _ _ rfl, heq.symm⟩))
  cases a with
  | equality attr v =>
    cases b with
    | equality attr' w => exact congrArg₂ equality hattr (hvalue ['='] h)
    | presence attr' => exact absurd (List.cons.inj h).2 (hpresence ha)
    | substring attr' q => exact absurd (List.cons.inj h).2 (hpattern ha hb)
    | greaterEq | lessEq | approxMatch => simp [relationText] at h
  | presence attr =>
    cases b with
    | equality attr' w => exact absurd (List.cons.inj h).2.symm (hpresence hb)
    | presence attr' => exact congrArg presence hattr
    | substring attr' q => exact absurd (List.cons.inj h).2.symm (hb.pattern _ _ rfl).toText_ne
    | greaterEq | lessEq | approxMatch => simp [relationText] at h
  | substring attr p =>
    have hp := ha.pattern _ _ rfl
    cases b with
    | equality attr' w => exact absurd (List.cons.inj h).2.symm (hpattern hb ha)
    | presence attr' => exact absurd (List.cons.inj h).2 hp.toText_ne
    | substring attr' q =>
      exact congrArg₂ substring hattr
        (Pattern.toText_inj hp (hb.pattern _ _ rfl) (List.cons.inj h).2)
    | greaterEq | lessEq | approxMatch => simp [relationText] at h
  | greaterEq attr v =>
    cases b with
    | greaterEq attr' w => exact congrArg₂ greaterEq hattr (hvalue ['>', '='] h)
    | _ => simp [relationText] at h
  | lessEq attr v =>
    cases b with
    | lessEq attr' w => exact congrArg₂ lessEq hattr (hvalue ['<', '='] h)
    | _ => simp [relationText] at h
  | approxMatch attr v =>
    cases b with
    | approxMatch attr' w => exact congrArg₂ approxMatch hattr (hvalue ['~', '='] h)
    | _ => simp [relationText] at h

theorem toText_append (a : Assertion) (us : List Char) :
    a.toText ++ us = '(' :: (a.attr.toList ++ (a.relationText ++ ')' :: us)) := by
  simp [toText]

/-- The attribute ends where the relation begins. -/
theorem attr_eq_of_append_eq (ha : a.Legible) (hb : b.Legible)
    (h : a.attr.toList ++ (a.relationText ++ us) = b.attr.toList ++ (b.relationText ++ vs)) :
    a.attr = b.attr ∧ a.relationText ++ us = b.relationText ++ vs := by
  have hstop : ∀ (a : Assertion) (cs : List Char),
      (a.relationText ++ cs).head?.any isMark = true := fun a cs => by cases a <;> rfl
  obtain ⟨hattr, hrelation⟩ := append_inj_of_stop ha.attr hb.attr (hstop a us) (hstop b vs) h
  exact ⟨String.toList_injective hattr, hrelation⟩

/-- An assertion is told by its text. -/
theorem toText_inj (ha : a.Legible) (hb : b.Legible) (h : a.toText = b.toText) : a = b := by
  rw [← List.append_nil a.toText, ← List.append_nil b.toText, toText_append, toText_append] at h
  obtain ⟨hattr, hrelation⟩ := attr_eq_of_append_eq ha hb (List.cons.inj h).2
  exact eq_of_relationText_eq ha hb hattr (List.append_cancel_right hrelation)

/-- An assertion is told by its text with something behind it. -/
theorem toText_append_inj (ha : a.Enclosed) (hb : b.Enclosed) (hus : Continues us)
    (hvs : Continues vs) (h : a.toText ++ us = b.toText ++ vs) : a = b ∧ us = vs := by
  rw [toText_append, toText_append] at h
  obtain ⟨hattr, hclose⟩ := attr_eq_of_append_eq ha.toLegible hb.toLegible (List.cons.inj h).2
  obtain ⟨hrelation, huv⟩ := ha.contained.append_inj hb.contained hus hvs hclose
  exact ⟨eq_of_relationText_eq ha.toLegible hb.toLegible hattr hrelation, huv⟩

/-- Behind the parenthesis of an assertion comes an attribute or a relation, and not the sign of a
composite filter. -/
theorem toText_append_ne (ha : a.Legible) {c : Char} (hc : c = '&' ∨ c = '|' ∨ c = '!') :
    a.toText ++ us ≠ '(' :: c :: vs := by
  intro h
  rw [toText_append] at h
  have htail := (List.cons.inj h).2
  cases hattr : a.attr.toList with
  | nil =>
    rw [hattr, List.nil_append] at htail
    rcases hc with rfl | rfl | rfl <;> cases a <;> simp [relationText] at htail
  | cons d ds =>
    rw [hattr, List.cons_append] at htail
    have hd := ha.attr d (hattr ▸ List.mem_cons_self)
    rw [(List.cons.inj htail).1] at hd
    rcases hc with rfl | rfl | rfl <;> cases hd

end Assertion

/-! ### Filters -/

namespace Filter

variable {P : Assertion → Prop} {f g : Filter} {fs gs : List Filter}

/-- The assertions in the filter have the property. -/
def Throughout (P : Assertion → Prop) (f : Filter) : Prop := ∀ a, Part (.assertion a) f → P a

theorem Throughout.assertion {a : Assertion} (h : (Filter.assertion a).Throughout P) : P a :=
  h a .self

theorem Throughout.and (h : (Filter.and fs).Throughout P) : ∀ f ∈ fs, f.Throughout P :=
  fun _ hf a ha => h a (.and hf ha)

theorem Throughout.or (h : (Filter.or fs).Throughout P) : ∀ f ∈ fs, f.Throughout P :=
  fun _ hf a ha => h a (.or hf ha)

theorem Throughout.join {k : Connective} (h : (k.join fs).Throughout P) :
    ∀ f ∈ fs, f.Throughout P := by
  cases k
  · exact h.and
  · exact h.or

theorem Throughout.not (h : (Filter.not f).Throughout P) : f.Throughout P :=
  fun a ha => h a (.not ha)

theorem throughout_assertion {a : Assertion} (h : P a) : (Filter.assertion a).Throughout P := by
  rintro _ ⟨⟩
  exact h

theorem throughout_and (h : ∀ f ∈ fs, f.Throughout P) : (Filter.and fs).Throughout P := by
  rintro a (_ | ⟨hf, ha⟩)
  exact h _ hf a ha

theorem head?_toText (f : Filter) : f.toText.head? = some '(' := by
  cases f <;> rfl

/-- What comes behind a filter among others continues it. -/
theorem continues_toTexts (fs : List Filter) (cs : List Char) :
    Continues (toTexts fs ++ ')' :: cs) := by
  cases fs with
  | nil => rfl
  | cons f fs =>
    rw [Continues, toTexts, List.append_assoc, List.head?_append, head?_toText]
    rfl

/-- Where the filters end, none follows. -/
theorem toTexts_cons_append_ne (f : Filter) (fs : List Filter) :
    toTexts (f :: fs) ++ us ≠ ')' :: vs := by
  intro h
  have hhead := congrArg List.head? h
  rw [toTexts, List.append_assoc, List.head?_append, head?_toText] at hhead
  cases hhead

/-- The filter is told by its text, and so is where it ends. -/
def Determined (f : Filter) : Prop :=
  ∀ g us vs, g.Throughout Assertion.Enclosed → Continues us → Continues vs →
    f.toText ++ us = g.toText ++ vs → f = g ∧ us = vs

theorem toTexts_inj (hfs : ∀ f ∈ fs, f.Determined) (hgs : ∀ g ∈ gs, g.Throughout Assertion.Enclosed)
    (h : toTexts fs ++ ')' :: us = toTexts gs ++ ')' :: vs) : fs = gs ∧ us = vs := by
  induction fs generalizing gs with
  | nil =>
    cases gs with
    | nil => exact ⟨rfl, (List.cons.inj h).2⟩
    | cons g gs => exact absurd h.symm (toTexts_cons_append_ne g gs)
  | cons f fs ih =>
    cases gs with
    | nil => exact absurd h (toTexts_cons_append_ne f fs)
    | cons g gs =>
      obtain ⟨hf, hfs⟩ := List.forall_mem_cons.mp hfs
      obtain ⟨hg, htail⟩ := List.forall_mem_cons.mp hgs
      rw [toTexts, toTexts, List.append_assoc, List.append_assoc] at h
      obtain ⟨rfl, hrest⟩ := hf g _ _ hg (continues_toTexts fs us) (continues_toTexts gs vs) h
      obtain ⟨rfl, huv⟩ := ih hfs htail hrest
      exact ⟨rfl, huv⟩

/-- The sign that a conjunction or a disjunction begins with. -/
def signOf : Connective → Char
  | .all => '&'
  | .any => '|'

theorem toText_join_append (k : Connective) (fs : List Filter) (us : List Char) :
    (k.join fs).toText ++ us = '(' :: signOf k :: (toTexts fs ++ ')' :: us) := by
  cases k <;> simp [Connective.join, signOf, toText]

theorem toText_not_append (f : Filter) (us : List Char) :
    (not f).toText ++ us = '(' :: '!' :: (f.toText ++ ')' :: us) := by
  simp [toText]

/-- The shapes of filters, with both kinds of composite ones in one case. -/
theorem exists_shape (f : Filter) : (∃ a, f = assertion a) ∨
    (∃ (k : Connective) (fs : List Filter), f = k.join fs) ∨ ∃ g, f = not g := by
  cases f with
  | assertion a => exact .inl ⟨a, rfl⟩
  | and fs => exact .inr (.inl ⟨.all, fs, rfl⟩)
  | or fs => exact .inr (.inl ⟨.any, fs, rfl⟩)
  | not f => exact .inr (.inr ⟨f, rfl⟩)

theorem determined_assertion {a : Assertion} (ha : a.Enclosed) : (assertion a).Determined := by
  intro g us vs hg hus hvs h
  obtain ⟨b, rfl⟩ | ⟨k, gs, rfl⟩ | ⟨g, rfl⟩ := g.exists_shape
  · obtain ⟨rfl, huv⟩ := Assertion.toText_append_inj ha hg.assertion hus hvs h
    exact ⟨rfl, huv⟩
  · rw [toText_join_append] at h
    exact absurd h (Assertion.toText_append_ne ha.toLegible (by cases k <;> simp [signOf]))
  · rw [toText_not_append] at h
    exact absurd h (Assertion.toText_append_ne ha.toLegible (by simp))

theorem determined_join (k : Connective) (hfs : ∀ f ∈ fs, f.Determined) :
    (k.join fs).Determined := by
  intro g us vs hg hus hvs h
  rw [toText_join_append] at h
  obtain ⟨b, rfl⟩ | ⟨k', gs, rfl⟩ | ⟨g, rfl⟩ := g.exists_shape
  · exact absurd h.symm
      (Assertion.toText_append_ne hg.assertion.toLegible (by cases k <;> simp [signOf]))
  · rw [toText_join_append] at h
    obtain ⟨hsign, hrest⟩ := List.cons.inj (List.cons.inj h).2
    obtain rfl : k = k' := by cases k <;> cases k' <;> first | rfl | cases hsign
    obtain ⟨rfl, huv⟩ := toTexts_inj hfs hg.join hrest
    exact ⟨rfl, huv⟩
  · rw [toText_not_append] at h
    cases k <;> cases (List.cons.inj (List.cons.inj h).2).1

theorem determined_not (hf : f.Determined) : (not f).Determined := by
  have hclose : ∀ cs, Continues (')' :: cs) := fun _ => rfl
  intro g us vs hg hus hvs h
  rw [toText_not_append] at h
  obtain ⟨b, rfl⟩ | ⟨k, gs, rfl⟩ | ⟨g, rfl⟩ := g.exists_shape
  · exact absurd h.symm (Assertion.toText_append_ne hg.assertion.toLegible (by simp))
  · rw [toText_join_append] at h
    cases k <;> cases (List.cons.inj (List.cons.inj h).2).1
  · rw [toText_not_append] at h
    obtain ⟨rfl, huv⟩ := hf g _ _ hg.not (hclose us) (hclose vs)
      (List.cons.inj (List.cons.inj h).2).2
    exact ⟨rfl, (List.cons.inj huv).2⟩

/-- A filter is told by its text. The induction is on one of the two filters, with anything that can
stand behind them. -/
theorem determined (f : Filter) (hf : f.Throughout Assertion.Enclosed) : f.Determined := by
  induction f using Filter.induction with
  | assertion a => exact determined_assertion hf.assertion
  | and fs ih => exact determined_join .all fun f hmem => ih f hmem (hf.and f hmem)
  | or fs ih => exact determined_join .any fun f hmem => ih f hmem (hf.or f hmem)
  | not f ih => exact determined_not (ih hf.not)

theorem eq_of_display_eq (hf : f.Throughout Assertion.Enclosed)
    (hg : g.Throughout Assertion.Enclosed) (h : f.display = g.display) : f = g := by
  have htext : f.toText ++ [] = g.toText ++ [] := by
    simpa [display, String.ofList_inj] using h
  exact (determined f hf g [] [] hg rfl rfl htext).1

end Filter

/-! ### Plan trees -/

namespace PlanNode

/-- A plan tree that describes the filter describes no other one. -/
def DescribesOnly (f : Filter) : Prop :=
  ∀ {n m : PlanNode} {g : Filter}, g.Throughout Assertion.Legible → n.Describes f → m.Describes g →
    n = m → f = g

theorem DescribesOnly.forall₂ {fs gs : List Filter} {ns : List PlanNode}
    (hfs : ∀ f ∈ fs, DescribesOnly f) (hgs : ∀ g ∈ gs, g.Throughout Assertion.Legible)
    (hn : List.Forall₂ Describes ns fs) (hm : List.Forall₂ Describes ns gs) : fs = gs := by
  induction hn generalizing gs with
  | nil =>
    cases hm
    rfl
  | cons hn _ ih =>
    cases hm with
    | cons hm hms =>
      obtain ⟨hf, hfs⟩ := List.forall_mem_cons.mp hfs
      obtain ⟨hg, hgs⟩ := List.forall_mem_cons.mp hgs
      rw [hf hg hn hm rfl, ih hfs hgs hms]

/-- The name of a composite node is not the text of an assertion. -/
theorem ofList_toText_ne {a : Assertion} {name : String} (h : name.toList.head? ≠ some '(') :
    String.ofList a.toText ≠ name := by
  rintro rfl
  exact h (by simp [Assertion.toText])

/-- A plan tree tells which filter it describes. Each assertion has a text of its own there, so it
does not matter how parentheses stand in the values. -/
theorem describesOnly : ∀ f : Filter, f.Throughout Assertion.Legible → DescribesOnly f := by
  refine Filter.induction (fun a => ?_) (fun fs ih => ?_) (fun fs ih => ?_) (fun f ih => ?_)
  · intro ha n m g hg hn hm heq
    cases hn
    cases hm with
    | assertion =>
      have htext := String.ofList_injective (node.inj heq).1
      rw [Assertion.toText_inj ha.assertion hg.assertion htext]
    | and | or | not => exact absurd (node.inj heq).1 (ofList_toText_ne (by decide))
  · intro hf n m g hg hn hm heq
    cases hn with
    | and hparts =>
    cases hm with
    | assertion => exact absurd (node.inj heq).1.symm (ofList_toText_ne (by decide))
    | and hparts' =>
      rw [← (node.inj heq).2.2.2] at hparts'
      rw [DescribesOnly.forall₂ (fun f hmem => ih f hmem (hf.and f hmem)) hg.and hparts hparts']
    | or | not => exact absurd (node.inj heq).1 (by decide)
  · intro hf n m g hg hn hm heq
    cases hn with
    | or hparts =>
    cases hm with
    | assertion => exact absurd (node.inj heq).1.symm (ofList_toText_ne (by decide))
    | or hparts' =>
      rw [← (node.inj heq).2.2.2] at hparts'
      rw [DescribesOnly.forall₂ (fun f hmem => ih f hmem (hf.or f hmem)) hg.or hparts hparts']
    | and | not => exact absurd (node.inj heq).1 (by decide)
  · intro hf n m g hg hn hm heq
    cases hn with
    | not hpart =>
    cases hm with
    | assertion => exact absurd (node.inj heq).1.symm (ofList_toText_ne (by decide))
    | not hpart' =>
      rw [ih hf.not hg.not hpart hpart' (List.singleton_inj.mp (node.inj heq).2.2.2)]
    | and | or => exact absurd (node.inj heq).1 (by decide)

end PlanNode

/-! ### Explanations -/

/-- The filter as it is written in an explanation. -/
def Explanation.filterText : Explanation → String
  | accepted p => p.filter
  | rejected _ filter _ _ => filter

theorem SearchRequest.filterText_explain (q : SearchRequest) (s : Store) (r : Registry)
    (limit : Option UInt64) : (q.explain s r limit).filterText = q.filter.display := by
  rw [explain, plan]
  cases Plan.build s r q.filter <;> rfl

/-! ### Filters that are written alike -/

namespace Filter

variable {attr value : String}

theorem throughout_presence (hattr : IsDescription attr) :
    (assertion (.presence attr)).Throughout Assertion.Enclosed :=
  throughout_assertion
    ⟨⟨hattr, nofun, nofun⟩, contained_of_not_mem (by simp [Assertion.relationText])⟩

theorem throughout_substring {pattern : Pattern} (hattr : IsDescription attr)
    (hcontained : Contained pattern.toText) (hpattern : pattern.Clear) :
    (assertion (.substring attr pattern)).Throughout Assertion.Enclosed := by
  refine throughout_assertion ⟨⟨hattr, nofun, ?_⟩, hcontained.cons (by decide)⟩
  rintro _ _ ⟨⟩
  exact hpattern

theorem throughout_equality (hattr : IsDescription attr) (hcontained : Contained value.toList)
    (hvalue : ¬HasLoneStars value.toList) :
    (assertion (.equality attr value)).Throughout Assertion.Enclosed := by
  refine throughout_assertion ⟨⟨hattr, ?_, nofun⟩, hcontained.cons (by decide)⟩
  rintro _ _ ⟨⟩
  exact hvalue

/-- The values that make an equality look like another filter are those whose stars stand alone. -/
theorem exists_twin_iff (hattr : IsDescription attr) (hcontained : Contained value.toList) :
    HasLoneStars value.toList ↔ ∃ g : Filter, g.Throughout Assertion.Enclosed ∧
      g.display = (assertion (.equality attr value)).display ∧
      g ≠ assertion (.equality attr value) := by
  constructor
  · intro hstars
    rcases hasLoneStars_iff.mp hstars with hstar | ⟨p, hp, htext⟩
    · refine ⟨assertion (.presence attr), throughout_presence hattr, ?_, nofun⟩
      simp [display, toText, Assertion.toText, Assertion.attr, Assertion.relationText, hstar]
    · rw [← htext] at hcontained
      refine ⟨assertion (.substring attr p), throughout_substring hattr hcontained hp, ?_, nofun⟩
      simp [display, toText, Assertion.toText, Assertion.attr, Assertion.relationText, htext]
  · rintro ⟨g, hg, hdisplay, hne⟩
    by_contra hvalue
    exact hne (eq_of_display_eq hg (throughout_equality hattr hcontained hvalue) hdisplay)

theorem toText_eq_dropLast (f : Filter) : f.toText = f.toText.dropLast ++ [')'] := by
  have hlast : ∀ cs : List Char, cs ++ [')'] = (cs ++ [')']).dropLast ++ [')'] := by simp
  cases f with
  | assertion a => exact hlast ('(' :: (a.attr.toList ++ a.relationText))
  | and fs => exact hlast ('(' :: '&' :: toTexts fs)
  | or fs => exact hlast ('(' :: '|' :: toTexts fs)
  | not f => exact hlast ('(' :: '!' :: f.toText)

/-- The value with the filter behind it, up to the parenthesis that closes the filter. -/
def swallow (value : String) (f : Filter) : String :=
  String.ofList (value.toList ++ ')' :: f.toText.dropLast)

/-- A filter behind an equality can as well stand in the value. -/
theorem display_swallow (k : Connective) (attr value : String) (f : Filter) (fs : List Filter) :
    (k.join (assertion (.equality attr (swallow value f)) :: fs)).display =
      (k.join (assertion (.equality attr value) :: f :: fs)).display := by
  have hmembers : toTexts (assertion (.equality attr (swallow value f)) :: fs) =
      toTexts (assertion (.equality attr value) :: f :: fs) := by
    conv_rhs => rw [toTexts, toTexts, toText_eq_dropLast f]
    simp [toTexts, toText, Assertion.toText, Assertion.attr, Assertion.relationText, swallow]
  cases k with
  | all => simp only [display, Connective.join, toText, hmembers]
  | any => simp only [display, Connective.join, toText, hmembers]

end Filter

/-- A star between two components can as well stand in a component. -/
theorem Pattern.toText_merge (initial finish : Option String) (before after : List String)
    (s t : String) :
    (Pattern.mk initial (before ++ (s ++ "*" ++ t) :: after) finish).toText =
      (Pattern.mk initial (before ++ s :: t :: after) finish).toText := by
  simp [toText]

/-- **Written filters.** Filters whose assertions are enclosed are told apart by their texts, and
requests for them by their explanations; in plan trees it is enough that the assertions are legible.
No more than that can be said: an equality with stars that stand alone is written like a presence
or substring assertion, a filter behind an equality can as well be the end of its value, and a star
between components can as well stand in one. -/
theorem Filter.display_determines (f g : Filter) (attr value : String) :
    (f.Throughout Assertion.Enclosed → g.Throughout Assertion.Enclosed →
      f.display = g.display → f = g) ∧
    (∀ (q q' : SearchRequest) (s s' : Store) (r r' : Registry) (limit limit' : Option UInt64),
      q.filter.Throughout Assertion.Enclosed → q'.filter.Throughout Assertion.Enclosed →
        q.explain s r limit = q'.explain s' r' limit' → q.filter = q'.filter) ∧
    (∀ (s s' : Store) (r r' : Registry) (p p' : Plan),
      f.Throughout Assertion.Legible → g.Throughout Assertion.Legible →
        Plan.build s r f = .ok p → Plan.build s' r' g = .ok p' → p.root = p'.root → f = g) ∧
    (IsDescription attr → Contained value.toList →
      (HasLoneStars value.toList ↔ ∃ h : Filter, h.Throughout Assertion.Enclosed ∧
        h.display = (assertion (.equality attr value)).display ∧
        h ≠ assertion (.equality attr value))) ∧
    (∀ (k : Connective) (fs : List Filter),
      (k.join (assertion (.equality attr (swallow value f)) :: fs)).display =
        (k.join (assertion (.equality attr value) :: f :: fs)).display) ∧
    ∀ (initial finish : Option String) (before after : List String) (s t : String),
      (assertion (.substring attr ⟨initial, before ++ (s ++ "*" ++ t) :: after, finish⟩)).display =
        (assertion (.substring attr ⟨initial, before ++ s :: t :: after, finish⟩)).display := by
  refine ⟨eq_of_display_eq, ?_, ?_, exists_twin_iff,
    fun k => display_swallow k attr value f, ?_⟩
  · intro q q' s s' r r' limit limit' hq hq' h
    have htext := congrArg Explanation.filterText h
    rw [q.filterText_explain, q'.filterText_explain] at htext
    exact eq_of_display_eq hq hq' htext
  · intro s s' r r' p p' hf hg hp hp' hroot
    exact PlanNode.describesOnly f hf hg (Plan.describes_root hp) (Plan.describes_root hp') hroot
  · intro initial finish before after s t
    simp only [display, toText, Assertion.toText, Assertion.relationText, Assertion.attr,
      Pattern.toText_merge]

/-- Two stars side by side belong to a value, and a parenthesis in a value does no harm in front of
a blank. A star that stands alone may stand for anything. -/
theorem Filter.display_determines_stars :
    (Filter.and [assertion (.equality "cn" "a**b) c"), assertion (.presence "sn")]).display ≠
      (Filter.and [assertion (.substring "cn" ⟨some "a", [], some "b) c"⟩),
        assertion (.presence "sn")]).display ∧
    ∃ g : Filter, g.Throughout Assertion.Enclosed ∧
      g.display = (assertion (.equality "cn" "a*b) c")).display ∧
      g ≠ assertion (.equality "cn" "a*b) c") := by
  have hcn : IsDescription "cn" := isDescription_of_alphanum (by decide)
  have hsn : (assertion (.presence "sn")).Throughout Assertion.Enclosed :=
    throughout_presence (isDescription_of_alphanum (by decide))
  have hvalue : (assertion (.equality "cn" "a**b) c")).Throughout Assertion.Enclosed :=
    throughout_equality hcn (by decide) (by decide)
  have hpattern : (assertion (.substring "cn" ⟨some "a", [], some "b) c"⟩)).Throughout
      Assertion.Enclosed :=
    throughout_substring hcn (by decide) ⟨by decide, by decide⟩
  have hboth := display_determines
    (and [assertion (.equality "cn" "a**b) c"), assertion (.presence "sn")])
    (and [assertion (.substring "cn" ⟨some "a", [], some "b) c"⟩), assertion (.presence "sn")])
    "cn" "a*b) c"
  refine ⟨fun h => ?_, (hboth.2.2.2.1 hcn (by decide)).mp (by decide)⟩
  have heq := hboth.1 (throughout_and (by simp [hvalue, hsn]))
    (throughout_and (by simp [hpattern, hsn])) h
  simp at heq

/-- There are two filters with attributes of letters, and no pattern among their assertions, that
are written alike. One is about the common name, and the other about the surname too. -/
theorem Filter.exists_twin_filters :
    Filter.and [assertion (.equality "cn" "a)(sn=b")] ≠
      Filter.and [assertion (.equality "cn" "a"), assertion (.equality "sn" "b")] ∧
    (Filter.and [assertion (.equality "cn" "a)(sn=b")]).display =
      (Filter.and [assertion (.equality "cn" "a"), assertion (.equality "sn" "b")]).display :=
  ⟨by simp, by decide⟩

end Directory
