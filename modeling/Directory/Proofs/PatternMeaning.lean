import Directory.Filter.Pattern
import Mathlib.Data.List.Infix

/-!
# What a substring pattern describes

A pattern describes a text that consists of its first component, its inner components with any text
before, between and behind them, and its last component (`Pattern.Describes`). `matchesText` puts
each inner component at the first place where it can stand. No text is missed by this: what follows
the first occurrence of a component contains what follows any other (`afterFirst?_of_append`). So it
accepts the texts that the pattern describes and no others (`matchesText_iff`).

A `Cut` shows how a text is put together from components and gaps. The texts that a pattern
describes are those that can be cut into its components (`describes_iff_exists_cut`).
-/

namespace Directory

/-- The segments occur in the text in this order and without overlap, with any text before, between
and behind them. -/
inductive Spaced : List (List Char) → List Char → Prop where
  | nil (gap : List Char) : Spaced [] gap
  | cons (gap segment : List Char) {segments : List (List Char)} {rest : List Char} :
      Spaced segments rest → Spaced (segment :: segments) (gap ++ (segment ++ rest))

/-- The text consists of the components of the pattern and of gaps where the stars are. -/
def Pattern.Describes (p : Pattern) (text : List Char) : Prop :=
  ∃ middle, text = charsOf p.initial ++ (middle ++ charsOf p.finish) ∧
    Spaced (p.any.map String.toList) middle

variable {segment text rest : List Char} {segments : List (List Char)}

/-- More text may stand in the first gap. -/
theorem Spaced.append_left (h : Spaced segments text) (more : List Char) :
    Spaced segments (more ++ text) := by
  cases h with
  | nil gap => exact .nil _
  | cons gap segment h =>
    rw [← List.append_assoc]
    exact .cons _ segment h

/-! ### Where components stand -/

theorem afterStart?_eq_some_iff : afterStart? segment text = some rest ↔ text = segment ++ rest := by
  induction segment generalizing text with
  | nil => simp [afterStart?, eq_comm]
  | cons c segment ih =>
    cases text with
    | nil => simp [afterStart?]
    | cons d text =>
      rw [afterStart?, List.cons_append]
      split
      · next h => rw [ih, h, List.cons_inj_right]
      · next h => simp [Ne.symm h]

theorem exists_gap_of_afterFirst? (h : afterFirst? segment text = some rest) :
    ∃ gap, text = gap ++ (segment ++ rest) := by
  induction text with
  | nil =>
    have htext : [] = segment ++ rest := afterStart?_eq_some_iff.mp h
    exact ⟨[], htext⟩
  | cons c text ih =>
    rw [afterFirst?] at h
    split at h
    · next rest' hstart =>
      cases h
      have htext : c :: text = segment ++ rest := afterStart?_eq_some_iff.mp hstart
      exact ⟨[], htext⟩
    · obtain ⟨gap, rfl⟩ := ih h
      exact ⟨c :: gap, rfl⟩

/-- What follows any occurrence of the segment is the end of what follows the first one. -/
theorem afterFirst?_of_append (gap : List Char) (h : text = gap ++ (segment ++ rest)) :
    ∃ more, afterFirst? segment text = some (more ++ rest) := by
  induction gap generalizing text with
  | nil =>
    have hstart : afterStart? segment text = some rest := afterStart?_eq_some_iff.mpr h
    cases text with
    | nil => exact ⟨[], hstart⟩
    | cons c text => exact ⟨[], by rw [afterFirst?, hstart]; rfl⟩
  | cons c gap ih =>
    subst h
    rw [List.cons_append, afterFirst?]
    split
    · next rest' hstart =>
      -- the segment stands at the start already, and again behind the gap
      have hlen : rest.length ≤ rest'.length := by
        have := congrArg List.length (afterStart?_eq_some_iff.mp hstart)
        simp only [List.length_cons, List.length_append] at this
        omega
      have hsuffix : rest <:+ rest' := by
        have hrest : rest <:+ c :: (gap ++ (segment ++ rest)) := ⟨c :: gap ++ segment, by simp⟩
        have hrest' : rest' <:+ c :: (gap ++ (segment ++ rest)) :=
          ⟨segment, (afterStart?_eq_some_iff.mp hstart).symm⟩
        exact List.suffix_of_suffix_length_le hrest hrest' hlen
      obtain ⟨more, hmore⟩ := hsuffix
      exact ⟨more, by rw [hmore]⟩
    · exact ih rfl

theorem spaced_of_afterAll? (h : afterAll? segments text = some rest) {gap finish : List Char}
    (hrest : rest = gap ++ finish) : ∃ middle, text = middle ++ finish ∧ Spaced segments middle := by
  induction segments generalizing text with
  | nil =>
    cases h
    exact ⟨gap, hrest, .nil gap⟩
  | cons segment segments ih =>
    obtain ⟨behind, hfirst, hall⟩ := Option.bind_eq_some_iff.mp h
    obtain ⟨before, rfl⟩ := exists_gap_of_afterFirst? hfirst
    obtain ⟨middle, rfl, hspaced⟩ := ih hall
    exact ⟨before ++ (segment ++ middle), by simp, .cons before segment hspaced⟩

theorem afterAll?_of_spaced {middle : List Char} (h : Spaced segments middle) (finish : List Char) :
    ∃ gap, afterAll? segments (middle ++ finish) = some (gap ++ finish) := by
  induction segments generalizing middle with
  | nil => exact ⟨middle, rfl⟩
  | cons segment segments ih =>
    cases h with
    | @cons gap _ _ rest hspaced =>
      have hsplit : gap ++ (segment ++ rest) ++ finish = gap ++ (segment ++ (rest ++ finish)) := by
        simp
      obtain ⟨more, hfirst⟩ := afterFirst?_of_append gap hsplit
      -- the first occurrence only makes the next gap longer
      obtain ⟨gap', hall⟩ := ih (hspaced.append_left more)
      refine ⟨gap', ?_⟩
      rw [afterAll?, hfirst, Option.bind_some, ← List.append_assoc]
      exact hall

/-! ### The pattern as a whole -/

namespace Pattern

/-- **A pattern accepts the texts that it describes.** -/
theorem matchesText_iff {p : Pattern} : p.matchesText text = true ↔ p.Describes text := by
  unfold matchesText Describes
  constructor
  · intro h
    split at h
    · cases h
    · next rest hrest =>
      obtain ⟨behind, hstart, hall⟩ := Option.bind_eq_some_iff.mp hrest
      obtain ⟨gap, hgap⟩ := List.isSuffixOf_iff_suffix.mp h
      obtain ⟨middle, hmiddle, hspaced⟩ := spaced_of_afterAll? hall hgap.symm
      exact ⟨middle, hmiddle ▸ afterStart?_eq_some_iff.mp hstart, hspaced⟩
  · rintro ⟨middle, htext, hspaced⟩
    obtain ⟨gap, hall⟩ := afterAll?_of_spaced hspaced (charsOf p.finish)
    rw [afterStart?_eq_some_iff.mpr htext, Option.bind_some, hall]
    exact List.isSuffixOf_iff_suffix.mpr (List.suffix_append _ _)

/-- Integers have no text, and texts are accepted by the pattern that describes them. -/
theorem accepts_iff {p : Pattern} {key : NormalValue} :
    p.accepts key = true ↔ ∃ text, key = .text text ∧ p.Describes text.toList := by
  cases key with
  | integer n => simp [accepts]
  | text s => simp [accepts, matchesText_iff]

end Pattern

/-! ### Cuts of a text -/

/-- A text in pieces: the components of a pattern and the gaps between them. -/
structure Cut where
  initial : Option (List Char) := none
  /-- What stands before the first inner component. -/
  gap : List Char := []
  /-- The inner components, each with what stands behind it. -/
  inner : List (List Char × List Char) := []
  finish : Option (List Char) := none
  deriving DecidableEq, Repr, Inhabited

namespace Cut

/-- The inner components and the gaps behind them. -/
def innerParts (inner : List (List Char × List Char)) : List (List Char) :=
  inner.flatMap fun part => [part.1, part.2]

@[simp] theorem innerParts_nil : innerParts [] = [] := rfl

@[simp] theorem innerParts_cons (part : List Char × List Char)
    (inner : List (List Char × List Char)) :
    innerParts (part :: inner) = part.1 :: part.2 :: innerParts inner := rfl

/-- What is between the first component and the last one. -/
def middle (c : Cut) : List (List Char) := c.gap :: innerParts c.inner

/-- The pieces, from the start of the text to its end. -/
def parts (c : Cut) : List (List Char) := c.initial.toList ++ (c.middle ++ c.finish.toList)

/-- The text that was cut. -/
def whole (c : Cut) : List Char := c.parts.flatten

/-- The pattern with the components of the cut. -/
def pattern (c : Cut) : Pattern where
  initial := c.initial.map String.ofList
  any := (c.inner.map Prod.fst).map String.ofList
  finish := c.finish.map String.ofList

end Cut

theorem spaced_iff_exists_inner : Spaced segments text ↔
    ∃ (gap : List Char) (inner : List (List Char × List Char)),
      inner.map Prod.fst = segments ∧ text = gap ++ (Cut.innerParts inner).flatten := by
  constructor
  · intro h
    induction h with
    | nil gap => exact ⟨gap, [], rfl, (List.append_nil gap).symm⟩
    | cons gap segment _ ih =>
      obtain ⟨gap', inner, rfl, rfl⟩ := ih
      exact ⟨gap, (segment, gap') :: inner, rfl, rfl⟩
  · rintro ⟨gap, inner, rfl, rfl⟩
    induction inner generalizing gap with
    | nil => exact .nil _
    | cons part inner ih => exact .cons gap part.1 (ih part.2)

/-- **A pattern describes the texts that can be cut into its components.** -/
theorem Pattern.describes_iff_exists_cut {p : Pattern} :
    p.Describes text ↔ ∃ c : Cut, c.pattern = p ∧ c.whole = text := by
  have hcomponent : ∀ o : Option String, (o.map String.toList).toList.flatten = charsOf o := by
    intro o
    cases o <;> simp [charsOf]
  have hread : ∀ o : Option String, (o.map String.toList).map String.ofList = o := by
    intro o
    cases o <;> simp
  constructor
  · rintro ⟨middle, rfl, hspaced⟩
    obtain ⟨gap, inner, hinner, rfl⟩ := spaced_iff_exists_inner.mp hspaced
    refine ⟨⟨p.initial.map String.toList, gap, inner, p.finish.map String.toList⟩, ?_, ?_⟩
    · have hany : (inner.map Prod.fst).map String.ofList = p.any := by
        rw [hinner]
        simp
      simp only [Cut.pattern, hread, hany]
    · simp [Cut.whole, Cut.parts, Cut.middle, hcomponent]
  · rintro ⟨c, rfl, rfl⟩
    refine ⟨c.middle.flatten, ?_, spaced_iff_exists_inner.mpr ⟨c.gap, c.inner, ?_, rfl⟩⟩
    · have hofList : ∀ o : Option (List Char),
          charsOf (o.map String.ofList) = o.toList.flatten := by
        intro o
        cases o <;> simp [charsOf]
      simp [Cut.whole, Cut.parts, Cut.pattern, hofList]
    · simp [Cut.pattern]

end Directory
