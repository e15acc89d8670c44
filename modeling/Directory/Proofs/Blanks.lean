import Directory.Value.Normalizer
import Mathlib.Data.List.DropRight

/-!
# Blanks in one pass

A value is split into words that are joined again, while a component of a pattern has its runs of
blanks collapsed and its edges trimmed. Both are one pass over the text, `tidy`, which keeps one
space of each run of blanks and none at the edges that are to be trimmed (`squeeze_eq_tidy`,
`trimEdges_collapse`).

The pass can be made piece by piece. A character that is not blank ends one run and begins another,
so that what stands before it does not matter to what comes behind (`tidy_append_cons`). Made once
more, the pass changes nothing (`tidy_tidy`).
-/

namespace Directory.Text

/-- Keep one space of each run of blanks, none of a run that is already written (`inRun`), and none
of a run at the end if this is trimmed. -/
def tidy (inRun atEnd : Bool) : List Char → List Char
  | [] => []
  | c :: cs =>
    if isBlank c then
      if inRun || (atEnd && cs.all isBlank) then tidy true atEnd cs else ' ' :: tidy true atEnd cs
    else c :: tidy false atEnd cs

variable {inRun atStart atEnd : Bool} {c : Char} {cs xs ys : List Char}

@[simp] theorem tidy_nil : tidy inRun atEnd [] = [] := rfl

theorem tidy_cons_of_blank (hc : isBlank c = true) :
    tidy inRun atEnd (c :: cs) = if inRun || (atEnd && cs.all isBlank) then tidy true atEnd cs
      else ' ' :: tidy true atEnd cs := by
  rw [tidy, if_pos hc]

theorem tidy_cons_of_not_blank (hc : isBlank c = false) :
    tidy inRun atEnd (c :: cs) = c :: tidy false atEnd cs := by
  rw [tidy, hc]
  rfl

/-! ### Piece by piece -/

/-- A character that is not blank separates what comes before it from what follows. -/
theorem tidy_append_cons (hc : isBlank c = false) :
    tidy inRun atEnd (xs ++ c :: ys) = tidy inRun false xs ++ c :: tidy false atEnd ys := by
  induction xs generalizing inRun with
  | nil => exact tidy_cons_of_not_blank hc
  | cons d xs ih =>
    rw [List.cons_append]
    cases hd : isBlank d with
    | true =>
      have hrest : (xs ++ c :: ys).all isBlank = false := by simp [hc]
      rw [tidy_cons_of_blank hd, tidy_cons_of_blank hd, hrest, Bool.and_false, Bool.false_and, ih]
      cases inRun <;> rfl
    | false => rw [tidy_cons_of_not_blank hd, tidy_cons_of_not_blank hd, ih, List.cons_append]

theorem tidy_append (hys : ys.head?.map isBlank = some false) :
    tidy inRun atEnd (xs ++ ys) = tidy inRun false xs ++ tidy false atEnd ys := by
  cases ys with
  | nil => cases hys
  | cons c ys =>
    have hc : isBlank c = false := Option.some.inj hys
    rw [tidy_append_cons hc, tidy_cons_of_not_blank hc]

/-- An edge without blanks need not be trimmed. -/
theorem tidy_of_head (h : cs.head?.map isBlank ≠ some true) :
    tidy inRun atEnd cs = tidy false atEnd cs := by
  cases cs with
  | nil => rfl
  | cons c cs =>
    have hc : isBlank c = false := by simpa using h
    rw [tidy_cons_of_not_blank hc, tidy_cons_of_not_blank hc]

theorem tidy_of_getLast (h : cs.getLast?.map isBlank ≠ some true) :
    tidy inRun atEnd cs = tidy inRun false cs := by
  cases cs using List.reverseRecOn with
  | nil => rfl
  | append_singleton cs c =>
    have hc : isBlank c = false := by simpa using h
    rw [tidy_append_cons hc, tidy_append_cons hc]
    rfl

/-! ### Making the pass again -/

theorem tidy_of_all (h : cs.all isBlank = true) : tidy inRun true cs = [] := by
  induction cs generalizing inRun with
  | nil => rfl
  | cons c cs ih =>
    obtain ⟨hc, hcs⟩ := Bool.and_eq_true_iff.mp h
    rw [tidy_cons_of_blank hc, hcs, Bool.and_self, Bool.or_true, if_pos rfl, ih hcs]

theorem all_tidy (inRun atEnd : Bool) (cs : List Char) :
    (tidy inRun atEnd cs).all isBlank = cs.all isBlank := by
  induction cs generalizing inRun with
  | nil => rfl
  | cons c cs ih =>
    cases hc : isBlank c with
    | true =>
      rw [tidy_cons_of_blank hc]
      split <;> simp [ih, hc, isBlank_space]
    | false => simp [tidy_cons_of_not_blank hc, hc]

/-- The pass changes nothing in what it has made. -/
theorem tidy_tidy (inRun atEnd : Bool) (cs : List Char) :
    tidy inRun atEnd (tidy inRun atEnd cs) = tidy inRun atEnd cs := by
  induction cs generalizing inRun with
  | nil => rfl
  | cons c cs ih =>
    cases hc : isBlank c with
    | false => rw [tidy_cons_of_not_blank hc, tidy_cons_of_not_blank hc, ih]
    | true =>
      rw [tidy_cons_of_blank hc]
      split
      · next hdrop =>
        cases inRun with
        | true => exact ih true
        | false =>
          obtain ⟨rfl, hall⟩ : atEnd = true ∧ cs.all isBlank = true := by simpa using hdrop
          rw [tidy_of_all hall, tidy_nil]
      · next hkeep =>
        -- the space stays, since what follows is as blank as it was before
        rw [tidy_cons_of_blank isBlank_space, all_tidy, if_neg hkeep, ih]

/-! ### Collapsing and trimming -/

theorem collapseFrom_eq_tidy (inRun : Bool) (cs : List Char) :
    collapseFrom inRun cs = tidy inRun false cs := by
  induction cs generalizing inRun with
  | nil => rfl
  | cons c cs ih =>
    rw [collapseFrom, tidy, ih, ih]
    simp only [Bool.false_and, Bool.or_false]

theorem trimStart_collapseFrom (inRun : Bool) (cs : List Char) :
    trimStart (collapseFrom inRun cs) = collapseFrom true cs := by
  induction cs generalizing inRun with
  | nil => rfl
  | cons c cs ih =>
    rw [collapseFrom, collapseFrom]
    cases hc : isBlank c with
    | true => cases inRun <;> exact ih true
    | false => exact List.dropWhile_cons_of_neg (by simp [hc])

theorem trimEnd_cons (c : Char) (cs : List Char) :
    trimEnd (c :: cs) = if (c :: cs).all isBlank then [] else c :: trimEnd cs := by
  have hempty : (cs.reverse.dropWhile isBlank).isEmpty = cs.all isBlank := by
    rw [Bool.eq_iff_iff, List.isEmpty_iff, List.dropWhile_eq_nil_iff]
    simp
  rw [trimEnd, List.reverse_cons, List.dropWhile_append, hempty, List.all_cons]
  cases hall : cs.all isBlank with
  | true =>
    have htrim : trimEnd cs = [] := by
      rw [hall, List.isEmpty_iff] at hempty
      rw [trimEnd, hempty]
      rfl
    cases hc : isBlank c <;> simp [hc, htrim]
  | false => simp [trimEnd]

theorem trimEnd_collapseFrom (inRun : Bool) (cs : List Char) :
    trimEnd (collapseFrom inRun cs) = tidy inRun true cs := by
  induction cs generalizing inRun with
  | nil => rfl
  | cons c cs ih =>
    rw [collapseFrom]
    cases hc : isBlank c with
    | true =>
      rw [tidy_cons_of_blank hc]
      cases inRun with
      | true => exact ih true
      | false =>
        -- the space stays only if something comes behind it
        have hspace := trimEnd_cons ' ' (collapseFrom true cs)
        have hrest : (collapseFrom true cs).all isBlank = cs.all isBlank := by
          rw [collapseFrom_eq_tidy, all_tidy]
        rw [List.all_cons, isBlank_space, hrest, ih] at hspace
        refine hspace.trans ?_
        cases hall : cs.all isBlank with
        | true => exact (tidy_of_all hall).symm
        | false => rfl
    | false =>
      rw [tidy_cons_of_not_blank hc, ← ih]
      refine (trimEnd_cons c _).trans ?_
      rw [List.all_cons, hc]
      rfl

/-- The canonical form of a component is the pass that trims the edges of the pattern. -/
theorem trimEdges_collapse (atStart atEnd : Bool) (cs : List Char) :
    Normalizer.trimEdges atStart atEnd (collapse cs) = tidy atStart atEnd cs := by
  have hstart : (if atStart then trimStart (collapse cs) else collapse cs) =
      collapseFrom atStart cs := by
    cases atStart with
    | true => exact trimStart_collapseFrom false cs
    | false => rfl
  rw [Normalizer.trimEdges, hstart]
  cases atEnd with
  | true => exact trimEnd_collapseFrom atStart cs
  | false => exact collapseFrom_eq_tidy atStart cs

/-! ### Words -/

theorem words_eq_nil_iff : words cs = [] ↔ cs.all isBlank = true := by
  induction cs with
  | nil => simp
  | cons c cs ih =>
    rw [words, List.all_cons]
    cases isBlank c with
    | true => simpa using ih
    | false =>
      cases cs.head?.all isBlank with
      | true => simp
      | false => cases words cs <;> simp [consWord]

theorem unwords_consWord (c : Char) {ws : List (List Char)} (h : ws ≠ []) :
    unwords (consWord c ws) = c :: unwords ws := by
  rcases ws with _ | ⟨w, _ | ⟨v, ws⟩⟩
  · exact absurd rfl h
  · rfl
  · rfl

/-- The canonical form of a value is the pass that trims both edges. -/
theorem squeeze_eq_tidy (cs : List Char) : squeeze cs = tidy true true cs := by
  -- the words of a text, and those of a text behind a character that is not blank
  have hboth : tidy true true cs = unwords (words cs) ∧
      ∀ c, isBlank c = false → c :: tidy false true cs = unwords (words (c :: cs)) := by
    induction cs with
    | nil =>
      refine ⟨rfl, fun c hc => ?_⟩
      rw [words, hc]
      rfl
    | cons d cs ih =>
      obtain ⟨ihedge, ihword⟩ := ih
      cases hd : isBlank d with
      | true =>
        have hwords : words (d :: cs) = words cs := by rw [words, if_pos hd]
        refine ⟨?_, fun c hc => ?_⟩
        · rw [tidy_cons_of_blank hd, Bool.true_or, if_pos rfl, hwords, ihedge]
        · have hsplit : words (c :: d :: cs) = [c] :: words cs := by
            rw [words, hc, ← hwords]
            simp [hd]
          rw [tidy_cons_of_blank hd, Bool.false_or, Bool.true_and, hsplit, ihedge]
          cases hall : cs.all isBlank with
          | true =>
            rw [words_eq_nil_iff.mpr hall]
            rfl
          | false =>
            obtain ⟨w, ws, hcons⟩ := List.exists_cons_of_ne_nil
              (mt words_eq_nil_iff.mp (Bool.eq_false_iff.mp hall))
            rw [hcons]
            rfl
      | false =>
        have hword : d :: tidy false true cs = unwords (words (d :: cs)) := ihword d hd
        refine ⟨?_, fun c hc => ?_⟩
        · rw [tidy_cons_of_not_blank hd, hword]
        · have hjoin : words (c :: d :: cs) = consWord c (words (d :: cs)) := by
            rw [words, hc]
            simp [hd]
          have hne : words (d :: cs) ≠ [] := by
            rw [ne_eq, words_eq_nil_iff, List.all_cons, hd]
            simp
          rw [tidy_cons_of_not_blank hd, hword, hjoin, unwords_consWord c hne]
  exact hboth.1.symm

end Directory.Text
