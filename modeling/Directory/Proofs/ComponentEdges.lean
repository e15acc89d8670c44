import Directory.Proofs.Blanks
import Directory.Proofs.LetterCase

/-!
# The edges of components

A component of a substring pattern that is trimmed at both edges is brought into the form that the
same text has as a value, under every normalizer whose values are texts. Values are cut into words
and joined again, components have their blanks collapsed and their edges trimmed, and both come to
the same pass (`tidy`).

At an edge that is not trimmed a component may keep a space of the run of blanks there
(`startSpace`, `endSpace`), and it differs from the value in nothing else (`tidy_eq_spaces`,
`normalizeSegment_edges`).
-/

namespace Directory

namespace Text

variable {inRun atStart atEnd : Bool} {c : Char} {cs : List Char}

/-! ### Spaces that stay -/

/-- The space that stays of a run of blanks at the start. A text of blanks only has no start that
stays if its end is trimmed. -/
def startSpace (atStart atEnd : Bool) (cs : List Char) : List Char :=
  if !atStart && cs.head?.any isBlank && !(atEnd && cs.all isBlank) then [' '] else []

/-- The space that stays of a run of blanks at the end. That of a text of blanks only stands at its
start. -/
def endSpace (atEnd : Bool) (cs : List Char) : List Char :=
  if !atEnd && cs.getLast?.any isBlank && !cs.all isBlank then [' '] else []

theorem startSpace_cases (atStart atEnd : Bool) (cs : List Char) :
    startSpace atStart atEnd cs = [] ∨ atStart = false ∧ startSpace atStart atEnd cs = [' '] := by
  unfold startSpace
  split
  · next h =>
    simp only [Bool.and_eq_true, Bool.not_eq_true'] at h
    exact .inr ⟨h.1.1, rfl⟩
  · exact .inl rfl

theorem endSpace_cases (atEnd : Bool) (cs : List Char) :
    endSpace atEnd cs = [] ∨ atEnd = false ∧ endSpace atEnd cs = [' '] := by
  unfold endSpace
  split
  · next h =>
    simp only [Bool.and_eq_true, Bool.not_eq_true'] at h
    exact .inr ⟨h.1.1, rfl⟩
  · exact .inl rfl

/-- At the start trimming takes away one space at most. -/
theorem tidy_eq_startSpace (atStart atEnd : Bool) (cs : List Char) :
    tidy atStart atEnd cs = startSpace atStart atEnd cs ++ tidy true atEnd cs := by
  cases atStart with
  | true => rfl
  | false =>
    cases cs with
    | nil => rfl
    | cons c cs =>
      cases hc : isBlank c with
      | true =>
        rw [tidy_cons_of_blank hc, tidy_cons_of_blank hc, Bool.true_or, if_pos rfl]
        cases hall : atEnd && cs.all isBlank <;> simp [startSpace, hc, hall]
      | false =>
        rw [tidy_cons_of_not_blank hc, tidy_cons_of_not_blank hc]
        simp [startSpace, hc]

/-- A text that is not all blanks has a last character that is not a blank. -/
theorem exists_last_not_blank (h : cs.all isBlank = false) :
    ∃ xs c bs, cs = xs ++ c :: bs ∧ isBlank c = false ∧ bs.all isBlank = true := by
  induction cs with
  | nil => cases h
  | cons c cs ih =>
    cases hcs : cs.all isBlank with
    | false =>
      obtain ⟨xs, d, bs, rfl, hd, hbs⟩ := ih hcs
      exact ⟨c :: xs, d, bs, rfl, hd, hbs⟩
    | true =>
      rw [List.all_cons, hcs, Bool.and_true] at h
      exact ⟨[], c, cs, rfl, h, hcs⟩

theorem tidy_true_of_all (h : cs.all isBlank = true) : tidy true atEnd cs = [] := by
  induction cs with
  | nil => rfl
  | cons c cs ih =>
    obtain ⟨hc, hcs⟩ := Bool.and_eq_true_iff.mp h
    rw [tidy_cons_of_blank hc, Bool.true_or, if_pos rfl, ih hcs]

/-- At the end trimming takes away one space at most. -/
theorem tidy_eq_endSpace (atEnd : Bool) (cs : List Char) :
    tidy true atEnd cs = tidy true true cs ++ endSpace atEnd cs := by
  cases hall : cs.all isBlank with
  | true => simp [tidy_true_of_all hall, endSpace, hall]
  | false =>
    obtain ⟨xs, c, bs, rfl, hc, hbs⟩ := exists_last_not_blank hall
    rw [tidy_append_cons hc, tidy_append_cons hc, List.append_assoc, List.cons_append]
    congr 2
    -- what is left is the run of blanks at the end
    rw [endSpace, hall, List.getLast?_append_cons]
    cases bs with
    | nil => simp [hc]
    | cons b bs =>
      obtain ⟨hb, hbs'⟩ := Bool.and_eq_true_iff.mp hbs
      have hlast : (c :: b :: bs).getLast?.any isBlank = true := by
        rw [List.getLast?_cons_cons, List.getLast?_eq_some_getLast (List.cons_ne_nil b bs)]
        exact List.all_eq_true.mp hbs _ (List.getLast_mem _)
      rw [hlast, tidy_cons_of_blank hb, tidy_cons_of_blank hb, hbs', tidy_true_of_all hbs',
        tidy_true_of_all hbs']
      cases atEnd <;> rfl

/-- Of a component there is what stays of a value, between the spaces at the edges. -/
theorem tidy_eq_spaces (atStart atEnd : Bool) (cs : List Char) :
    tidy atStart atEnd cs =
      startSpace atStart atEnd cs ++ tidy true true cs ++ endSpace atEnd cs := by
  rw [tidy_eq_startSpace, tidy_eq_endSpace, List.append_assoc]

/-! ### Truth values -/

theorem isBlank_toUpper (c : Char) : isBlank c.toUpper = isBlank c := by
  simp only [isBlank, inRanges, toNat_toUpper]
  split
  · next h =>
    simp only [blankRanges, List.any_cons, List.any_nil, ← Bool.decide_and, ← Bool.decide_or,
      Bool.or_false, decide_eq_decide]
    omega
  · rfl

theorem trim_asciiUpper (cs : List Char) : trim (asciiUpper cs) = asciiUpper (trim cs) := by
  have hdrop : ∀ xs : List Char, (asciiUpper xs).dropWhile isBlank =
      asciiUpper (xs.dropWhile isBlank) := fun xs => by
    have hcomp : isBlank ∘ Char.toUpper = isBlank := funext isBlank_toUpper
    rw [asciiUpper, List.dropWhile_map, hcomp]
    rfl
  have hreverse : ∀ xs : List Char, (asciiUpper xs).reverse = asciiUpper xs.reverse := fun xs =>
    (List.map_reverse).symm
  rw [trim, trimEnd, trimStart, hdrop, hreverse, hdrop, hreverse]
  rfl

end Text

/-! ### Components and values -/

namespace Normalizer

open Text

variable {nz : Normalizer} {raw : String} {v : NormalValue}

theorem trimEdges_both_collapse (cs : List Char) :
    trimEdges true true (collapse cs) = squeeze cs := by
  rw [trimEdges_collapse, squeeze_eq_tidy]

/-- A component that is trimmed at both edges is a value. -/
theorem normalizeSegment_both (hnz : nz.isTextual = true) (h : nz.normalize raw = .ok v) :
    ∃ s, v = .text s ∧ nz.normalizeSegment raw true true = .ok s := by
  cases nz with
  | noOp =>
    cases h
    exact ⟨raw, rfl, rfl⟩
  | deepTrim =>
    cases h
    exact ⟨_, rfl, by rw [normalizeSegment, trimEdges_both_collapse]⟩
  | deepTrimToLower =>
    cases h
    exact ⟨_, rfl, by rw [normalizeSegment, trimEdges_both_collapse]⟩
  | numeric => cases hnz
  | boolean =>
    have hsegment : boolean.normalizeSegment raw true true =
        .ok (String.ofList (asciiUpper (trim raw.toList))) := by
      rw [← trim_asciiUpper]
      rfl
    rw [normalize] at h
    split at h
    · cases h
      exact ⟨_, rfl, hsegment⟩
    · cases h

/-- Any other component has the value between the spaces that stay at its edges. -/
theorem normalizeSegment_deepTrim (raw : String) (atStart atEnd : Bool) :
    deepTrim.normalizeSegment raw atStart atEnd =
      .ok (String.ofList (startSpace atStart atEnd raw.toList ++ squeeze raw.toList ++
        endSpace atEnd raw.toList)) := by
  rw [normalizeSegment, trimEdges_collapse, tidy_eq_spaces, squeeze_eq_tidy]

end Normalizer

open Normalizer in
/-- **A component that is trimmed at both edges is brought into the form that it has as a value**,
under every normalizer whose values are texts and whenever it has such a form. Under `deepTrim` a
component with other edges differs from the value by one space at most on either edge, and by none
on an edge that is trimmed. -/
theorem normalizeSegment_edges :
    (∀ (nz : Normalizer) raw v, nz.isTextual = true → nz.normalize raw = .ok v →
      ∃ s, v = .text s ∧ nz.normalizeSegment raw true true = .ok s) ∧
    ∀ raw atStart atEnd, ∃ before value after,
      deepTrim.normalize raw = .ok (.text value) ∧
      deepTrim.normalizeSegment raw atStart atEnd = .ok (before ++ value ++ after) ∧
      (before = "" ∨ atStart = false ∧ before = " ") ∧
      (after = "" ∨ atEnd = false ∧ after = " ") := by
  refine ⟨fun nz raw v => normalizeSegment_both, fun raw atStart atEnd => ?_⟩
  refine ⟨String.ofList (Text.startSpace atStart atEnd raw.toList), _,
    String.ofList (Text.endSpace atEnd raw.toList), rfl, ?_, ?_, ?_⟩
  · rw [normalizeSegment_deepTrim, String.ofList_append, String.ofList_append]
  · exact (Text.startSpace_cases atStart atEnd raw.toList).imp (congrArg _)
      (And.imp_right (congrArg _))
  · exact (Text.endSpace_cases atEnd raw.toList).imp (congrArg _) (And.imp_right (congrArg _))

/-- A sigma at the end of a word before a wide space, a truth value between blanks, and blanks only,
of which an inner component keeps one. -/
theorem normalizeSegment_edges_cases :
    Normalizer.deepTrimToLower.normalizeSegment "\u3000ΟΔΟΣ \t İ\u2003" true true =
        .ok "οδος i\u0307" ∧
      Normalizer.boolean.normalizeSegment "\n true " true true = .ok "TRUE" ∧
      Normalizer.deepTrim.normalizeSegment " \t " true true = .ok "" ∧
      Normalizer.deepTrim.normalizeSegment " \t " false false = .ok " " := by
  obtain ⟨hboth, -⟩ := normalizeSegment_edges
  have hsigma : Normalizer.deepTrimToLower.normalize "\u3000ΟΔΟΣ \t İ\u2003" =
      .ok (.text "οδος i\u0307") := by decide +kernel
  have htrue : Normalizer.boolean.normalize "\n true " = .ok (.text "TRUE") := by decide +kernel
  have hblank : Normalizer.deepTrim.normalize " \t " = .ok (.text "") := by decide +kernel
  obtain ⟨s, hs, hsigma'⟩ := hboth _ _ _ rfl hsigma
  obtain ⟨t, ht, htrue'⟩ := hboth _ _ _ rfl htrue
  obtain ⟨e, he, hblank'⟩ := hboth _ _ _ rfl hblank
  cases hs
  cases ht
  cases he
  exact ⟨hsigma', htrue', hblank', by decide +kernel⟩

end Directory
