import Directory.Proofs.LetterContext
import Directory.Proofs.PatternExpression

/-!
# Patterns that are cut out of a value

Values are brought into canonical form as a whole, the components of a pattern one by one. A pattern
whose components are cut out of a value should match the value, as long as no run of blanks is cut.
For this the canonical form of a piece must be the piece of the canonical form. In the form that the
canonical form of the whole gives to a piece, `Normalizer.canonIn`, the pieces do make up the whole
(`canonIn_append`).

Blanks keep to this: trimming and collapsing look no further than to the next character that is not
blank. Letter case does not. A sigma that ends a word has another lowercase form than any other, and
a component may end where the word goes on, or begin where it has begun before. So a cut is only
sure to match if each sigma of a component ends a word in the component just when it does so in the
value, and the values that match all their cuts are those in which no sigma follows a letter
(`cuts_match_iff`).

A library of regular expressions may refuse the expression of a pattern. Where it compiles one, the
matcher accepts the value just when the cut matches (`matcher_accepts_iff_matches`).
-/

namespace Directory

open Text

/-! ### Canonical forms of pieces -/

/-- The text before, which is given in reverse, and the text behind meet between two characters that
are not blank. -/
def Seam (before after : List Char) : Prop :=
  before.head?.map isBlank = some false ∧ after.head?.map isBlank = some false

instance (before after : List Char) : Decidable (Seam before after) :=
  inferInstanceAs (Decidable (_ ∧ _))

theorem isEmpty_eq_false {cs : List Char} (h : cs.head?.map isBlank = some false) :
    cs.isEmpty = false := by
  cases cs with
  | nil => cases h
  | cons c cs => rfl

/-- A text does not begin with a blank if what begins with it does not. -/
theorem head_ne_blank {xs ys : List Char} (h : (xs ++ ys).head?.map isBlank = some false) :
    xs.head?.map isBlank ≠ some true := by
  cases xs with
  | nil => exact fun hnone => nomatch hnone
  | cons x xs =>
    rw [List.cons_append, List.head?_cons] at h
    rw [List.head?_cons, h]
    decide

namespace Normalizer

/-- The normalizer trims the edges of texts and collapses their inner blanks. -/
def IsTrimming (nz : Normalizer) : Prop := nz = .deepTrim ∨ nz = .deepTrimToLower

/-- A text that stands between `before`, which is given in reverse, and `after`, with letter case
disregarded where the normalizer does so. -/
def foldIn (nz : Normalizer) (before after cs : List Char) : List Char :=
  match nz with
  | .deepTrimToLower => lowerIn before after cs
  | _ => cs

/-- What becomes of a text that stands between `before`, which is given in reverse, and `after` when
the whole is brought into canonical form. -/
def canonIn (nz : Normalizer) (before after cs : List Char) : List Char :=
  tidy before.isEmpty after.isEmpty (nz.foldIn before after cs)

variable {nz : Normalizer} {before after cs xs ys : List Char}

theorem normalize_eq (hnz : nz.IsTrimming) (cs : List Char) :
    nz.normalize (String.ofList cs) = .ok (.text (String.ofList (nz.canonIn [] [] cs))) := by
  rcases hnz with rfl | rfl
  · rw [normalize, String.toList_ofList, squeeze_eq_tidy]
    rfl
  · rw [normalize, String.toList_ofList, squeeze_eq_tidy, lower_tidy, lower_eq_lowerIn]
    rfl

theorem normalizeSegment_eq (hnz : nz.IsTrimming) (cs : List Char) (atStart atEnd : Bool) :
    nz.normalizeSegment (String.ofList cs) atStart atEnd =
      .ok (String.ofList (tidy atStart atEnd (nz.foldIn [] [] cs))) := by
  rcases hnz with rfl | rfl
  · rw [normalizeSegment, String.toList_ofList, trimEdges_collapse]
    rfl
  · rw [normalizeSegment, String.toList_ofList, trimEdges_collapse, lower_tidy, lower_eq_lowerIn]
    rfl

theorem foldIn_append : nz.foldIn before after (xs ++ ys) =
    nz.foldIn before (ys ++ after) xs ++ nz.foldIn (xs.reverse ++ before) after ys := by
  cases nz with
  | deepTrimToLower => exact lowerIn_append
  | noOp | deepTrim | numeric | boolean => rfl

theorem isBlank_head?_foldIn :
    (nz.foldIn before after cs).head?.map isBlank = cs.head?.map isBlank := by
  cases nz with
  | deepTrimToLower => exact isBlank_head?_lowerIn
  | noOp | deepTrim | numeric | boolean => rfl

theorem isBlank_getLast?_foldIn :
    (nz.foldIn before after cs).getLast?.map isBlank = cs.getLast?.map isBlank := by
  cases nz with
  | deepTrimToLower => exact isBlank_getLast?_lowerIn
  | noOp | deepTrim | numeric | boolean => rfl

/-- The canonical form of a whole is put together from those of its pieces. -/
theorem canonIn_append (hseam : Seam (xs.reverse ++ before) (ys ++ after)) :
    nz.canonIn before after (xs ++ ys) =
      nz.canonIn before (ys ++ after) xs ++ nz.canonIn (xs.reverse ++ before) after ys := by
  obtain ⟨hleft, hright⟩ := hseam
  rw [canonIn, canonIn, canonIn, foldIn_append, isEmpty_eq_false hleft, isEmpty_eq_false hright]
  cases ys with
  | nil =>
    have hafter : after.isEmpty = false := isEmpty_eq_false hright
    have hnil : nz.foldIn (xs.reverse ++ before) after [] = [] := by cases nz <;> rfl
    rw [hnil, hafter, List.append_nil, tidy_nil, List.append_nil]
  | cons y ys => exact tidy_append (isBlank_head?_foldIn.trans hright)

/-- A component has the form that it has in its place, if letter case agrees and edges that are
trimmed otherwise than there have no blanks. -/
theorem normalizeSegment_eq_canonIn (hnz : nz.IsTrimming)
    (hfold : nz.foldIn before after cs = nz.foldIn [] [] cs) {atStart atEnd : Bool}
    (hstart : atStart = before.isEmpty ∨ cs.head?.map isBlank ≠ some true)
    (hend : atEnd = after.isEmpty ∨ cs.getLast?.map isBlank ≠ some true) :
    nz.normalizeSegment (String.ofList cs) atStart atEnd =
      .ok (String.ofList (nz.canonIn before after cs)) := by
  rw [normalizeSegment_eq hnz, canonIn, hfold]
  have hleft : ∀ e, tidy atStart e (nz.foldIn [] [] cs) =
      tidy before.isEmpty e (nz.foldIn [] [] cs) := by
    intro e
    rcases hstart with rfl | hstart
    · rfl
    · have hhead : (nz.foldIn [] [] cs).head?.map isBlank ≠ some true := fun h =>
        hstart (isBlank_head?_foldIn.symm.trans h)
      exact (tidy_of_head hhead).trans (tidy_of_head hhead).symm
  have hright : ∀ b, tidy b atEnd (nz.foldIn [] [] cs) =
      tidy b after.isEmpty (nz.foldIn [] [] cs) := by
    intro b
    rcases hend with rfl | hend
    · rfl
    · have hlast : (nz.foldIn [] [] cs).getLast?.map isBlank ≠ some true := fun h =>
        hend (isBlank_getLast?_foldIn.symm.trans h)
      exact (tidy_of_getLast hlast).trans (tidy_of_getLast hlast).symm
  rw [hleft, hright]

/-- A text that is cut out between `before`, which is given in reverse, and `after`. There are no
blanks beside the cuts, and letter case is disregarded in it alone as it is in its place. -/
structure Fits (nz : Normalizer) (before cs after : List Char) : Prop where
  start : Seam before (cs ++ after)
  finish : Seam (cs.reverse ++ before) after
  folds : nz.foldIn before after cs = nz.foldIn [] [] cs

theorem Fits.normalizeSegment_eq (h : nz.Fits before cs after) (hnz : nz.IsTrimming)
    (atStart atEnd : Bool) : nz.normalizeSegment (String.ofList cs) atStart atEnd =
      .ok (String.ofList (nz.canonIn before after cs)) := by
  refine normalizeSegment_eq_canonIn hnz h.folds (.inr (head_ne_blank h.start.2)) (.inr ?_)
  rw [← List.head?_reverse]
  exact head_ne_blank h.finish.1

theorem Fits.canonIn_append {gap rest : List Char}
    (h : nz.Fits (gap.reverse ++ before) cs (rest ++ after)) :
    nz.canonIn before after (gap ++ (cs ++ rest)) =
      nz.canonIn before (cs ++ rest ++ after) gap ++
        (nz.canonIn (gap.reverse ++ before) (rest ++ after) cs ++
          nz.canonIn (cs.reverse ++ (gap.reverse ++ before)) after rest) := by
  have hstart : Seam (gap.reverse ++ before) (cs ++ rest ++ after) := by
    simpa only [List.append_assoc] using h.start
  rw [Normalizer.canonIn_append hstart, Normalizer.canonIn_append h.finish]

end Normalizer

/-! ### Clean cuts -/

namespace Cut

/-- Each boundary between the pieces lies between two characters that are not blank. -/
def Clean (c : Cut) : Prop :=
  ∀ xs ys, c.parts = xs ++ ys → xs ≠ [] → ys ≠ [] → Seam xs.flatten.reverse ys.flatten

theorem clean_iff {c : Cut} : c.Clean ↔ ∀ n < c.parts.length, 0 < n →
    Seam (c.parts.take n).flatten.reverse (c.parts.drop n).flatten := by
  constructor
  · intro h n hlt hpos
    refine h _ _ (List.take_append_drop n c.parts).symm ?_ ?_
    · rw [← List.length_pos_iff, List.length_take]
      omega
    · rw [← List.length_pos_iff, List.length_drop]
      omega
  · intro h xs ys hparts hxs hys
    have hpos := List.length_pos_iff.mpr hxs
    have hpos' := List.length_pos_iff.mpr hys
    have hseam := h xs.length (by rw [hparts, List.length_append]; omega) hpos
    rwa [hparts, List.take_left, List.drop_left] at hseam

instance (c : Cut) : Decidable c.Clean := decidable_of_iff _ clean_iff.symm

/-- A component of the cut, with the text before and the text behind it. -/
inductive Component (c : Cut) : (before component after : List Char) → Prop
  | initial {x : List Char} : c.initial = some x →
      Component c [] x (c.middle ++ c.finish.toList).flatten
  | inner {xs ys : List (List Char × List Char)} {x gap : List Char} :
      c.inner = xs ++ (x, gap) :: ys →
      Component c (c.initial.toList ++ c.gap :: innerParts xs).flatten x
        (gap :: (innerParts ys ++ c.finish.toList)).flatten
  | finish {x : List Char} : c.finish = some x →
      Component c (c.initial.toList ++ c.middle).flatten x []

/-- Each sigma of a component ends a word in the value just when it does so in the component. -/
def KeepsSigmas (c : Cut) : Prop :=
  ∀ before x after, c.Component before x after → Text.KeepsSigmas before.reverse x after

end Cut

/-! ### Normalized components -/

variable {nz : Normalizer} {c : Cut} {s : Store} {r : Registry} {attr : String} {t : AttributeType}
  {rule : MatchingRule}

/-- Inner components that have one canonical form, however they are trimmed. -/
theorem normalizeAny_eq_ok {raws components : List String} (h : List.Forall₂ (fun raw component =>
    ∀ atStart atEnd, nz.normalizeSegment raw atStart atEnd = .ok component) raws components)
    (atStart atEnd : Bool) : Pattern.normalizeAny nz atStart atEnd raws = .ok components := by
  induction h generalizing atStart with
  | nil => rfl
  | @cons raw component raws components hraw htail ih =>
    cases htail with
    | nil =>
      rw [Pattern.normalizeAny, hraw]
      rfl
    | cons hnext htail =>
      rw [Pattern.normalizeAny, hraw, ih]
      · rfl
      · exact List.cons_ne_nil _ _

/-- The inner components fit in their places, which begin with a gap behind `before`, and end before
`after`. -/
inductive FitAll (nz : Normalizer) (after : List Char) :
    (before gap : List Char) → List (List Char × List Char) → Prop
  | nil {before gap : List Char} : FitAll nz after before gap []
  | cons {before gap x g : List Char} {inner : List (List Char × List Char)} :
      nz.Fits (gap.reverse ++ before) x (g ++ (Cut.innerParts inner).flatten ++ after) →
      FitAll nz after (x.reverse ++ (gap.reverse ++ before)) g inner →
      FitAll nz after before gap ((x, g) :: inner)

/-- The inner components have one canonical form each, and those are spaced in the canonical form
of what they were cut out of. -/
theorem FitAll.spaced {before gap after : List Char} {inner : List (List Char × List Char)}
    (h : FitAll nz after before gap inner) (hnz : nz.IsTrimming) : ∃ components : List String,
      List.Forall₂ (fun raw component =>
        ∀ atStart atEnd, nz.normalizeSegment raw atStart atEnd = .ok component)
        ((inner.map Prod.fst).map String.ofList) components ∧
      Spaced (components.map String.toList)
        (nz.canonIn before after (gap ++ (Cut.innerParts inner).flatten)) := by
  induction h with
  | nil => exact ⟨[], .nil, .nil _⟩
  | @cons before gap x g inner hx _ ih =>
    obtain ⟨components, hcomponents, hspaced⟩ := ih
    refine ⟨_ :: components, .cons (hx.normalizeSegment_eq hnz) hcomponents, ?_⟩
    have hinner : (Cut.innerParts ((x, g) :: inner)).flatten =
        x ++ (g ++ (Cut.innerParts inner).flatten) := rfl
    rw [hinner, hx.canonIn_append, List.map_cons, String.toList_ofList]
    exact .cons _ _ hspaced

/-- The inner components of a clean cut fit. -/
theorem fitAll_of_clean {inner : List (List Char × List Char)} {pre post : List (List Char)}
    {gap : List Char}
    (hclean : ∀ xs ys, pre ++ (gap :: (Cut.innerParts inner ++ post)) = xs ++ ys →
      xs ≠ [] → ys ≠ [] → Seam xs.flatten.reverse ys.flatten)
    (hfold : ∀ xs x g ys, inner = xs ++ (x, g) :: ys →
      nz.foldIn (pre ++ gap :: Cut.innerParts xs).flatten.reverse
        (g :: (Cut.innerParts ys ++ post)).flatten x = nz.foldIn [] [] x) :
    FitAll nz post.flatten pre.flatten.reverse gap inner := by
  induction inner generalizing pre gap with
  | nil => exact .nil
  | cons part inner ih =>
    obtain ⟨x, g⟩ := part
    rw [Cut.innerParts_cons] at hclean
    have hstart := hclean (pre ++ [gap]) (x :: g :: (Cut.innerParts inner ++ post)) (by simp)
      (by simp) (by simp)
    have hfinish := hclean (pre ++ [gap, x]) (g :: (Cut.innerParts inner ++ post)) (by simp)
      (by simp) (by simp)
    have hx := hfold [] x g inner rfl
    have hrest : FitAll nz post.flatten (pre ++ [gap, x]).flatten.reverse g inner := by
      refine ih (fun xs ys h => hclean xs ys (by simpa using h)) fun xs y g' ys h => ?_
      have hy := hfold ((x, g) :: xs) y g' ys (by rw [h]; rfl)
      simpa [Cut.innerParts] using hy
    exact .cons ⟨by simpa using hstart, by simpa using hfinish, by simpa [Cut.innerParts] using hx⟩
      (by simpa using hrest)

/-- The first component of a clean cut has the form that it has in its place. -/
theorem exists_initial_of_clean (hnz : nz.IsTrimming) (hclean : c.Clean)
    (hfold : ∀ before x after, c.Component before x after →
      nz.foldIn before.reverse after x = nz.foldIn [] [] x) :
    ∃ start : Option String,
      (c.initial.map String.ofList).mapM (fun raw => nz.normalizeSegment raw true false) =
        .ok start ∧
      nz.canonIn [] [] c.whole = Pattern.charsOf start ++
        nz.canonIn c.initial.toList.flatten.reverse []
          (c.middle.flatten ++ c.finish.toList.flatten) := by
  cases hx : c.initial with
  | none => exact ⟨none, rfl, by simp [Cut.whole, Cut.parts, hx, Pattern.charsOf]⟩
  | some x =>
    have hseam := hclean [x] (c.middle ++ c.finish.toList) (by simp [Cut.parts, hx]) (by simp)
      (by simp [Cut.middle])
    have hsegment : nz.normalizeSegment (String.ofList x) true false = .ok (String.ofList
        (nz.canonIn [] (c.middle ++ c.finish.toList).flatten x)) :=
      Normalizer.normalizeSegment_eq_canonIn hnz (hfold _ _ _ (.initial hx)) (.inl rfl)
        (.inl (isEmpty_eq_false hseam.2).symm)
    refine ⟨some _, by simp only [Option.map_some, Option.mapM_some, hsegment]; rfl, ?_⟩
    have happend : nz.canonIn [] [] (x ++ (c.middle ++ c.finish.toList).flatten) =
        nz.canonIn [] ((c.middle ++ c.finish.toList).flatten ++ []) x ++
          nz.canonIn (x.reverse ++ []) [] (c.middle ++ c.finish.toList).flatten :=
      Normalizer.canonIn_append (by simpa using hseam)
    simpa [Cut.whole, Cut.parts, hx, Pattern.charsOf] using happend

/-- So does the last component. -/
theorem exists_finish_of_clean (hnz : nz.IsTrimming) (hclean : c.Clean)
    (hfold : ∀ before x after, c.Component before x after →
      nz.foldIn before.reverse after x = nz.foldIn [] [] x) :
    ∃ finish : Option String,
      (c.finish.map String.ofList).mapM (fun raw => nz.normalizeSegment raw false true) =
        .ok finish ∧
      nz.canonIn c.initial.toList.flatten.reverse []
          (c.middle.flatten ++ c.finish.toList.flatten) =
        nz.canonIn c.initial.toList.flatten.reverse c.finish.toList.flatten c.middle.flatten ++
          Pattern.charsOf finish := by
  cases hx : c.finish with
  | none => exact ⟨none, rfl, by simp [Pattern.charsOf]⟩
  | some x =>
    have hseam := hclean (c.initial.toList ++ c.middle) [x] (by simp [Cut.parts, hx])
      (by simp [Cut.middle]) (by simp)
    have hsegment : nz.normalizeSegment (String.ofList x) false true = .ok (String.ofList
        (nz.canonIn (c.initial.toList ++ c.middle).flatten.reverse [] x)) :=
      Normalizer.normalizeSegment_eq_canonIn hnz (hfold _ _ _ (.finish hx))
        (.inl (isEmpty_eq_false hseam.1).symm) (.inl rfl)
    refine ⟨some _, by simp only [Option.map_some, Option.mapM_some, hsegment]; rfl, ?_⟩
    have happend : nz.canonIn c.initial.toList.flatten.reverse [] (c.middle.flatten ++ x) =
        nz.canonIn c.initial.toList.flatten.reverse (x ++ []) c.middle.flatten ++
          nz.canonIn (c.middle.flatten.reverse ++ c.initial.toList.flatten.reverse) [] x :=
      Normalizer.canonIn_append (by simpa using hseam)
    simpa [Pattern.charsOf] using happend

/-- The components of a clean cut have canonical forms, and the canonical form of the value can be
cut into these. -/
theorem exists_describes_of_clean (hnz : nz.IsTrimming) (hclean : c.Clean)
    (hfold : ∀ before x after, c.Component before x after →
      nz.foldIn before.reverse after x = nz.foldIn [] [] x) :
    ∃ p, c.pattern.normalize nz = .ok p ∧ p.Describes (nz.canonIn [] [] c.whole) := by
  obtain ⟨start, hstart, hwhole⟩ := exists_initial_of_clean hnz hclean hfold
  obtain ⟨finish, hfinish, hend⟩ := exists_finish_of_clean hnz hclean hfold
  have hinner : FitAll nz c.finish.toList.flatten c.initial.toList.flatten.reverse c.gap c.inner :=
    fitAll_of_clean hclean fun xs x g ys h => hfold _ _ _ (.inner h)
  obtain ⟨components, hcomponents, hspaced⟩ := hinner.spaced hnz
  refine ⟨⟨start, components, finish⟩, ?_, _, hwhole.trans (congrArg _ hend), hspaced⟩
  have hany := normalizeAny_eq_ok hcomponents c.pattern.initial.isNone c.pattern.finish.isNone
  rw [Pattern.normalize]
  simp only [Cut.pattern] at hany ⊢
  rw [hany, hstart, hfinish]
  rfl

/-! ### Cuts that match -/

/-- An assertion of the components of the cut can be bound, and the value that was cut satisfies it.
Whether a library compiles the components is another matter (`Cut.AcceptedBy`). -/
def Cut.Matches (c : Cut) (s : Store) (r : Registry) (attr : String) : Prop :=
  ∃ l, Leaf.bind s r (.substring attr c.pattern) = .ok l ∧
    l.condition.Accepts (String.ofList c.whole)

theorem accepts_like_iff (hnz : rule.normalizer.IsTrimming) {p : Pattern} {cs : List Char} :
    (Condition.like rule p).Accepts (String.ofList cs) ↔
      p.Describes (rule.normalizer.canonIn [] [] cs) := by
  have hnormalize : rule.normalize (String.ofList cs) =
      .ok (.text (String.ofList (rule.normalizer.canonIn [] [] cs))) :=
    Normalizer.normalize_eq hnz cs
  rw [Condition.accepts_iff rfl, hnormalize]
  simp only [Except.ok.injEq, exists_eq_left']
  rw [Condition.acceptsKey, Pattern.accepts, String.toList_ofList, Pattern.matchesText_iff]

theorem cut_matches_iff (hr : r.resolve attr = .ok t) (hrule : t.substring = some rule)
    (hnz : rule.normalizer.IsTrimming) : c.Matches s r attr ↔
      ∃ p, c.pattern.normalize rule.normalizer = .ok p ∧
        p.Describes (rule.normalizer.canonIn [] [] c.whole) := by
  have htextual : rule.normalizer.isTextual = true := by
    rcases hnz with h | h <;> rw [h] <;> rfl
  have hbind : c.Matches s r attr ↔ ∃ t condition, r.resolve attr = .ok t ∧
      Leaf.conditionOf t (.substring attr c.pattern) = .ok condition ∧
        condition.Accepts (String.ofList c.whole) :=
    Leaf.exists_bind_congr fun _ _ _ _ => Iff.rfl
  rw [hbind]
  simp only [Leaf.conditionOf_substring_iff]
  constructor
  · rintro ⟨t', _, ht', ⟨rule', p, hrule', -, hp, rfl⟩, haccepts⟩
    obtain rfl : t = t' := Except.ok.inj (hr.symm.trans ht')
    obtain rfl : rule = rule' := Option.some.inj (hrule.symm.trans hrule')
    exact ⟨p, hp, (accepts_like_iff hnz).mp haccepts⟩
  · rintro ⟨p, hp, hdescribes⟩
    exact ⟨t, _, hr, ⟨rule, p, hrule, htextual, hp, rfl⟩, (accepts_like_iff hnz).mpr hdescribes⟩

/-- The matcher accepts the canonical form of the value that was cut. -/
def Cut.AcceptedBy (c : Cut) (rule : MatchingRule) (test : List Char → Bool) : Prop :=
  ∃ v, rule.normalize (String.ofList c.whole) = .ok v ∧ RegexLibrary.testValue test v = true

/-- What a documented library compiles for the components of a cut accepts the value just when the
cut matches. -/
theorem matcher_accepts_iff_matches {lib : RegexLibrary} (hlib : lib.Documented)
    (hr : r.resolve attr = .ok t) (hrule : t.substring = some rule) {l : Leaf}
    (hl : Leaf.bind s r (.substring attr c.pattern) = .ok l) :
    ∃ p, l.condition = .like rule p ∧ c.pattern.normalize rule.normalizer = .ok p ∧
      ∀ test, lib.compile? (lib.expression p) = some test →
        (c.AcceptedBy rule test ↔ c.Matches s r attr) := by
  obtain ⟨t', condition, ht', hcondition, hbound⟩ := Leaf.bind_eq_bound_iff.mp hl
  obtain rfl : t = t' := Except.ok.inj (hr.symm.trans ht')
  obtain ⟨rule', p, hrule', -, hp, rfl⟩ := Leaf.conditionOf_substring_iff.mp hcondition
  obtain rfl : rule = rule' := Option.some.inj (hrule.symm.trans hrule')
  have hlike : l.condition = .like rule p := by
    rw [← hbound]
    rfl
  refine ⟨p, hlike, hp, fun test htest => ?_⟩
  have haccepts : l.condition.Accepts (String.ofList c.whole) ↔ c.AcceptedBy rule test := by
    rw [hlike, Condition.accepts_iff rfl, Cut.AcceptedBy, hlib.testValue_eq htest]
    rfl
  rw [← haccepts]
  constructor
  · intro h
    exact ⟨l, hl, h⟩
  · rintro ⟨l', hl', h⟩
    obtain rfl : l = l' := Except.ok.inj (hl.symm.trans hl')
    exact h

/-! ### Cuts beside a sigma -/

/-- A sigma is a letter for its neighbours. -/
theorem reachesCased_sigma (cs : List Char) : reachesCased ('Σ' :: cs) = true := by
  have hignorable : inRanges caseIgnorableRanges 'Σ' = false := by decide +kernel
  have hcased : inRanges casedRanges 'Σ' = true := by decide +kernel
  rw [reachesCased_cons, hignorable, hcased]
  rfl

/-- No blank stands before the letter that is reached. -/
theorem isBlank_head?_of_reachesCased {cs : List Char} (h : reachesCased cs = true) :
    cs.head?.map isBlank = some false := by
  cases cs with
  | nil => cases h
  | cons d cs =>
    cases hd : isBlank d with
    | true =>
      rw [reachesCased_cons_of_blank hd] at h
      cases h
    | false => simp [hd]

/-- The lowercase form of a sigma between these. -/
def sigmaBetween (before after : List Char) : Char := if endsWord before after then 'ς' else 'σ'

theorem endsWord_eq_of_sigmaBetween {before after before' after' : List Char}
    (h : sigmaBetween before after = sigmaBetween before' after') :
    endsWord before after = endsWord before' after' := by
  have hforms : ∀ a b : Bool, (if a then 'ς' else 'σ') = (if b then 'ς' else 'σ') → a = b := by
    decide
  exact hforms _ _ h

/-- A sigma separates what comes before it from what comes behind it. -/
theorem tidy_lower_sigma (atStart atEnd : Bool) (x y : List Char) :
    tidy atStart atEnd (lowerIn [] [] (x ++ 'Σ' :: y)) = tidy atStart false (lowerIn [] ['Σ'] x) ++
      sigmaBetween x.reverse y :: tidy false atEnd (lowerIn ['Σ'] [] y) := by
  have hbefore : lowerIn [] ('Σ' :: y) x = lowerIn [] ['Σ'] x :=
    lowerIn_congr rfl ((reachesCased_sigma y).trans (reachesCased_sigma []).symm)
  have hbehind : lowerIn ('Σ' :: x.reverse) [] y = lowerIn ['Σ'] [] y :=
    lowerIn_congr ((reachesCased_sigma x.reverse).trans (reachesCased_sigma []).symm) rfl
  have hsigma : lowerBetween x.reverse y 'Σ' = [sigmaBetween x.reverse y] := rfl
  have hblank : isBlank (sigmaBetween x.reverse y) = false := by
    unfold sigmaBetween
    split <;> decide
  rw [lowerIn_append, lowerIn_cons, List.append_nil, List.append_nil, List.append_nil, hbefore,
    hbehind, hsigma, List.singleton_append, tidy_append_cons hblank]

/-- A cut into two pieces is clean if the boundary between them is. -/
theorem clean_of_pair {xs ys : List Char} (hparts : c.parts = [xs, ys])
    (hseam : Seam xs.reverse ys) : c.Clean := by
  rw [Cut.clean_iff, hparts]
  intro n hlt hpos
  obtain rfl : n = 1 := by
    rw [List.length_cons, List.length_singleton] at hlt
    omega
  simpa using hseam

theorem whole_of_initial (xs ys : List Char) : (Cut.mk (some xs) ys [] none).whole = xs ++ ys := by
  simp [Cut.whole, Cut.parts, Cut.middle]

theorem whole_of_finish (xs ys : List Char) : (Cut.mk none xs [] (some ys)).whole = xs ++ ys := by
  simp [Cut.whole, Cut.parts, Cut.middle]

/-- If a value matches that is cut behind a sigma, the sigma ends a word in the value just when it
does so without what comes behind. -/
theorem endsWord_eq_of_cut_behind {x y : List Char} (hr : r.resolve attr = .ok t)
    (hrule : t.substring = some rule) (hlower : rule.normalizer = .deepTrimToLower)
    (h : (Cut.mk (some (x ++ ['Σ'])) y [] none).Matches s r attr) :
    endsWord x.reverse [] = endsWord x.reverse y := by
  obtain ⟨p, hp, middle, hvalue, -⟩ := (cut_matches_iff hr hrule (.inr hlower)).mp h
  have hpattern : (Cut.mk (some (x ++ ['Σ'])) y [] none).pattern.normalize .deepTrimToLower =
      .ok ⟨some (String.ofList (tidy true false (lowerIn [] [] (x ++ ['Σ'])))), [], none⟩ := by
    rw [Pattern.normalize]
    simp only [Cut.pattern, Option.map_some, Option.mapM_some,
      Normalizer.normalizeSegment_eq (.inr rfl)]
    rfl
  rw [hlower, hpattern] at hp
  obtain rfl := Except.ok.inj hp
  rw [hlower, whole_of_initial, List.append_assoc, List.singleton_append] at hvalue
  have hstart : tidy true true (lowerIn [] [] (x ++ 'Σ' :: y)) =
      tidy true false (lowerIn [] [] (x ++ ['Σ'])) ++ (middle ++ []) := by
    rw [← String.toList_ofList (l := tidy true false _)]
    exact hvalue
  rw [tidy_lower_sigma, tidy_lower_sigma, List.append_assoc, List.append_cancel_left_eq] at hstart
  exact endsWord_eq_of_sigmaBetween (List.cons.inj hstart).1.symm

/-- If a value matches that is cut before a sigma, the sigma ends a word in the value just when it
does so without what comes before. -/
theorem endsWord_eq_of_cut_before {x y : List Char} (hr : r.resolve attr = .ok t)
    (hrule : t.substring = some rule) (hlower : rule.normalizer = .deepTrimToLower)
    (h : (Cut.mk none x [] (some ('Σ' :: y))).Matches s r attr) :
    endsWord [] y = endsWord x.reverse y := by
  obtain ⟨p, hp, middle, hvalue, -⟩ := (cut_matches_iff hr hrule (.inr hlower)).mp h
  have hpattern : (Cut.mk none x [] (some ('Σ' :: y))).pattern.normalize .deepTrimToLower =
      .ok ⟨none, [], some (String.ofList (tidy false true (lowerIn [] [] ('Σ' :: y))))⟩ := by
    rw [Pattern.normalize]
    simp only [Cut.pattern, Option.map_some, Option.mapM_some,
      Normalizer.normalizeSegment_eq (.inr rfl)]
    rfl
  rw [hlower, hpattern] at hp
  obtain rfl := Except.ok.inj hp
  rw [hlower, whole_of_finish] at hvalue
  have hend : tidy true true (lowerIn [] [] (x ++ 'Σ' :: y)) =
      middle ++ tidy false true (lowerIn [] [] ('Σ' :: y)) := by
    rw [← String.toList_ofList (l := tidy false true _)]
    exact hvalue
  have halone : tidy false true (lowerIn [] [] ('Σ' :: y)) =
      sigmaBetween [] y :: tidy false true (lowerIn ['Σ'] [] y) := tidy_lower_sigma false true [] y
  rw [halone, tidy_lower_sigma] at hend
  have hsigma := List.append_inj_right' hend rfl
  exact endsWord_eq_of_sigmaBetween (List.cons.inj hsigma).1.symm

/-! ### All cuts of a value -/

theorem component_whole {before x after : List Char} (h : c.Component before x after) :
    before ++ (x ++ after) = c.whole := by
  cases h with
  | initial hx => simp [Cut.whole, Cut.parts, hx]
  | inner hx => simp [Cut.whole, Cut.parts, Cut.middle, Cut.innerParts, hx]
  | finish hx => simp [Cut.whole, Cut.parts, hx]

theorem matches_of_clean (hr : r.resolve attr = .ok t) (hrule : t.substring = some rule)
    (hnz : rule.normalizer.IsTrimming) (hclean : c.Clean)
    (hsigmas : rule.normalizer = .deepTrimToLower → c.KeepsSigmas) : c.Matches s r attr := by
  refine (cut_matches_iff hr hrule hnz).mpr (exists_describes_of_clean hnz hclean ?_)
  intro before x after hx
  rcases hnz with hexact | hlower
  · rw [hexact]
    rfl
  · rw [hlower]
    exact (lowerIn_eq_lower (hsigmas hlower before x after hx)).trans (lower_eq_lowerIn x)

/-- Of two cuts beside a sigma that follows a letter, one does not match: the cut behind the sigma
if the word goes on, and else the cut before it. -/
theorem sigmaFree_of_matches {v : List Char} (hr : r.resolve attr = .ok t)
    (hrule : t.substring = some rule) (hlower : rule.normalizer = .deepTrimToLower)
    (hall : ∀ c : Cut, c.Clean → c.whole = v → c.Matches s r attr) : SigmaFree v := by
  intro x y hv
  by_contra hreaches
  rw [Bool.not_eq_false] at hreaches
  cases hy : reachesCased y with
  | true =>
    have hlast : (x ++ ['Σ']).reverse.head?.map isBlank = some false := by
      rw [List.reverse_concat]
      exact isBlank_head?_of_reachesCased (reachesCased_sigma _)
    have hbehind : endsWord x.reverse [] = endsWord x.reverse y := by
      refine endsWord_eq_of_cut_behind hr hrule hlower (hall _ ?_ ?_)
      · exact clean_of_pair rfl ⟨hlast, isBlank_head?_of_reachesCased hy⟩
      · rw [whole_of_initial, hv, List.append_assoc, List.singleton_append]
    rw [endsWord, endsWord, hreaches, hy] at hbehind
    cases hbehind
  | false =>
    have hfirst : ('Σ' :: y).head?.map isBlank = some false :=
      isBlank_head?_of_reachesCased (reachesCased_sigma y)
    have hbefore : endsWord [] y = endsWord x.reverse y := by
      refine endsWord_eq_of_cut_before hr hrule hlower (hall _ ?_ ?_)
      · exact clean_of_pair rfl ⟨isBlank_head?_of_reachesCased hreaches, hfirst⟩
      · rw [whole_of_finish, hv]
    rw [endsWord, endsWord, hreaches, hy] at hbefore
    cases hbefore

/-- **Clean cuts match, but for the sigmas at the ends of words.** A clean cut matches if each sigma
of a component ends a word in the component just when it does so in the value. All clean cuts of a
value match if and only if no sigma in it follows a letter. Where letter case counts, all clean cuts
match. And a cut matches just when the matcher that a documented library compiles for its components
accepts the value, as far as the library does not refuse the expression. -/
theorem cuts_match_iff (hr : r.resolve attr = .ok t) (hrule : t.substring = some rule)
    (hnz : rule.normalizer.IsTrimming) :
    (∀ c : Cut, c.Clean → (rule.normalizer = .deepTrimToLower → c.KeepsSigmas) →
      c.Matches s r attr) ∧
    (∀ v, (∀ c : Cut, c.Clean → c.whole = v → c.Matches s r attr) ↔
      (rule.normalizer = .deepTrimToLower → SigmaFree v)) ∧
    ∀ lib : RegexLibrary, lib.Documented → ∀ (c : Cut) (l : Leaf),
      Leaf.bind s r (.substring attr c.pattern) = .ok l →
        ∃ p, l.condition = .like rule p ∧ c.pattern.normalize rule.normalizer = .ok p ∧
          ∀ test, lib.compile? (lib.expression p) = some test →
            (c.AcceptedBy rule test ↔ c.Matches s r attr) := by
  refine ⟨fun c => matches_of_clean hr hrule hnz, fun v => ⟨?_, ?_⟩,
    fun lib hlib c l => matcher_accepts_iff_matches hlib hr hrule⟩
  · intro hall hlower
    exact sigmaFree_of_matches hr hrule hlower hall
  · intro hfree c hclean hv
    refine matches_of_clean hr hrule hnz hclean fun hlower before x after hx => ?_
    refine SigmaFree.keepsSigmas ?_
    rw [List.reverse_reverse, component_whole hx, hv]
    exact hfree hlower

/-- A cut into four pieces, with white space within them and at the edges. Its components contain no
sigma, and its gaps do. The elementary library compiles them. -/
theorem cuts_match_iff_surnames :
    let c : Cut := ⟨some "  ΟΔ".toList, "Υ  Σ".toList, [("ΕΥ".toList, "Σ".toList)],
      some "Ω ".toList⟩
    let store := Store.new "people"
    Registry.surnames.resolve "SN" = .ok .surname ∧
      AttributeType.surname.substring = some .caseIgnoreSubstringsMatch ∧
      MatchingRule.caseIgnoreSubstringsMatch.normalizer.IsTrimming ∧ c.Clean ∧ c.KeepsSigmas ∧
      c.Matches store .surnames "SN" ∧
      (∀ v, (∀ c : Cut, c.Clean → c.whole = v → c.Matches store .surnames "SN") ↔
        (MatchingRule.caseIgnoreSubstringsMatch.normalizer = .deepTrimToLower → SigmaFree v)) ∧
      ∃ l p test, Leaf.bind store .surnames (.substring "SN" c.pattern) = .ok l ∧
        l.condition = .like .caseIgnoreSubstringsMatch p ∧
        RegexLibrary.elementary.compile? (RegexLibrary.elementary.expression p) = some test ∧
        c.AcceptedBy .caseIgnoreSubstringsMatch test := by
  intro c store
  have hr : Registry.surnames.resolve "SN" = .ok .surname := by decide +kernel
  have hnz : MatchingRule.caseIgnoreSubstringsMatch.normalizer.IsTrimming := .inr rfl
  have hclean : c.Clean := by decide +kernel
  have hsigmas : c.KeepsSigmas := by
    rintro before x after hx a b rfl
    have hfree : ∀ cs ∈ ["  ΟΔ".toList, "ΕΥ".toList, "Ω ".toList], 'Σ' ∉ cs := by decide +kernel
    refine absurd (List.mem_append_right a List.mem_cons_self) (hfree (a ++ 'Σ' :: b) ?_)
    cases hx with
    | initial h => simp [← Option.some.inj h]
    | inner h =>
      have hmem : ∀ part ∈ c.inner, part = ("ΕΥ".toList, "Σ".toList) := by decide +kernel
      have hx := hmem _ (h ▸ List.mem_append_right _ List.mem_cons_self)
      simp [(Prod.mk.inj hx).1]
    | finish h => simp [← Option.some.inj h]
  obtain ⟨hcut, hall, hmatchers⟩ := cuts_match_iff hr rfl hnz
  have hmatches : c.Matches store .surnames "SN" := hcut c hclean fun _ => hsigmas
  have ⟨l, hl, _⟩ := hmatches
  obtain ⟨p, hlike, -, hcompiled⟩ := hmatchers _ RegexLibrary.documented_elementary c l hl
  have htest := RegexLibrary.compile?_elementary p.pieces
  rw [← RegexLibrary.expression_eq] at htest
  exact ⟨hr, rfl, hnz, hclean, hsigmas, hmatches, hall, l, p, _, hl, hlike, htest,
    (hcompiled _ htest).mpr hmatches⟩

/-- The value has two sigmas in the middle. A component that ends with the first of them begins
the value, but its canonical form ends with the letter for the end of a word. -/
theorem exists_clean_cut_without_match :
    ∃ c : Cut, Registry.surnames.resolve "SN" = .ok .surname ∧
      AttributeType.surname.substring = some .caseIgnoreSubstringsMatch ∧
      MatchingRule.caseIgnoreSubstringsMatch.normalizer = .deepTrimToLower ∧ c.Clean ∧
      ¬ c.Matches (Store.new "people") .surnames "SN" := by
  have hr : Registry.surnames.resolve "SN" = .ok .surname := by decide +kernel
  refine ⟨⟨some "ΟΔΥΣ".toList, "ΣΕΥΣ".toList, [], none⟩, hr, rfl, rfl, by decide +kernel, ?_⟩
  rw [cut_matches_iff hr rfl (.inr rfl)]
  rintro ⟨p, hp, hdescribes⟩
  have hpattern : (Cut.mk (some "ΟΔΥΣ".toList) "ΣΕΥΣ".toList [] none).pattern.normalize
      .deepTrimToLower = .ok ⟨some "οδυς", [], none⟩ := by decide +kernel
  obtain rfl : (⟨some "οδυς", [], none⟩ : Pattern) = p := Except.ok.inj (hpattern.symm.trans hp)
  exact absurd (Pattern.matchesText_iff.mpr hdescribes) (by decide +kernel)

end Directory
