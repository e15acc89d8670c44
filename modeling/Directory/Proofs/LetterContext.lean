import Directory.Proofs.Blanks
import Directory.Proofs.LetterCase

/-!
# Lowercase forms in context

The lowercase form of a sigma depends on the letters around it. `lowerIn` lowercases a text that
stands between others, so that the lowercase form of a whole is that of its pieces
(`lowerIn_append`). A piece has the same form alone and in its place if each of its sigmas ends a
word alone just when it does so in its place (`KeepsSigmas`, `lowerIn_eq_lower`).

A blank is neither a letter nor something that letters are looked for behind, and lowercasing makes
and removes none. So it does not matter whether blanks are put in order before or after lowercasing
(`lower_tidy`).
-/

namespace Directory.Text

variable {before before' after after' cs xs ys a b : List Char} {c d : Char}

/-! ### Looking for a letter -/

theorem reachesCased_cons (c : Char) (cs : List Char) : reachesCased (c :: cs) =
    if inRanges caseIgnorableRanges c then reachesCased cs else inRanges casedRanges c := by
  rw [reachesCased, List.dropWhile_cons]
  cases inRanges caseIgnorableRanges c <;> rfl

/-- Only the question whether a letter is reached leads beyond a text. -/
theorem reachesCased_append_congr (h : reachesCased a = reachesCased b) (cs : List Char) :
    reachesCased (cs ++ a) = reachesCased (cs ++ b) := by
  induction cs with
  | nil => exact h
  | cons c cs ih =>
    rw [List.cons_append, List.cons_append, reachesCased_cons, reachesCased_cons, ih]

theorem reachesCased_append (h : reachesCased a = true) : reachesCased (a ++ b) = true := by
  induction a with
  | nil => cases h
  | cons c a ih =>
    rw [reachesCased_cons] at h
    rw [List.cons_append, reachesCased_cons]
    cases hignorable : inRanges caseIgnorableRanges c with
    | true =>
      rw [hignorable] at h
      exact ih h
    | false =>
      rw [hignorable] at h
      exact h

/-! ### In context -/

/-- Lowercase a text that stands between `before`, which is given in reverse, and `after`. -/
def lowerIn (before after : List Char) : List Char → List Char
  | [] => []
  | c :: cs => lowerBetween before (cs ++ after) c ++ lowerIn (c :: before) after cs

@[simp] theorem lowerIn_nil : lowerIn before after [] = [] := rfl

theorem lowerIn_cons : lowerIn before after (c :: cs) =
    lowerBetween before (cs ++ after) c ++ lowerIn (c :: before) after cs := rfl

theorem lowerIn_append : lowerIn before after (xs ++ ys) =
    lowerIn before (ys ++ after) xs ++ lowerIn (xs.reverse ++ before) after ys := by
  induction xs generalizing before with
  | nil => rfl
  | cons c xs ih => simp [lowerIn_cons, ih]

theorem lower_eq_lowerIn (cs : List Char) : lower cs = lowerIn [] [] cs := by
  have hfrom : ∀ before, lowerFrom before cs = lowerIn before [] cs := by
    induction cs with
    | nil => exact fun _ => rfl
    | cons c cs ih =>
      intro before
      rw [lowerFrom_cons, lowerIn_cons, ih, List.append_nil]
  exact hfrom []

/-- Of the context, only a sigma takes notice. -/
theorem lowerBetween_congr (h : c = 'Σ' → endsWord before after = endsWord before' after') :
    lowerBetween before after c = lowerBetween before' after' c := by
  by_cases hc : c = 'Σ'
  · unfold lowerBetween
    rw [h hc]
  · unfold lowerBetween
    rw [if_neg hc, if_neg hc]

theorem lowerIn_congr (hbefore : reachesCased before = reachesCased before')
    (hafter : reachesCased after = reachesCased after') :
    lowerIn before after cs = lowerIn before' after' cs := by
  induction cs generalizing before before' with
  | nil => rfl
  | cons c cs ih =>
    have hends : endsWord before (cs ++ after) = endsWord before' (cs ++ after') := by
      rw [endsWord, endsWord, hbefore, reachesCased_append_congr hafter]
    have hnext : reachesCased (c :: before) = reachesCased (c :: before') :=
      reachesCased_append_congr hbefore [c]
    rw [lowerIn_cons, lowerIn_cons, lowerBetween_congr fun _ => hends, ih hnext]

/-! ### Sigmas -/

/-- Each sigma of the text `cs` ends a word where `cs` stands between `before`, which is given in
reverse, and `after`, just when it does so in `cs` alone. -/
def KeepsSigmas (before cs after : List Char) : Prop :=
  ∀ a b, cs = a ++ 'Σ' :: b → endsWord (a.reverse ++ before) (b ++ after) = endsWord a.reverse b

theorem lowerIn_eq_lower (h : KeepsSigmas before cs after) :
    lowerIn before after cs = lower cs := by
  rw [lower_eq_lowerIn]
  have hrest : ∀ done rest, cs = done ++ rest →
      lowerIn (done.reverse ++ before) after rest = lowerIn done.reverse [] rest := by
    intro done rest hcs
    induction rest generalizing done with
    | nil => rfl
    | cons c rest ih =>
      have hends : c = 'Σ' →
          endsWord (done.reverse ++ before) (rest ++ after) =
            endsWord done.reverse (rest ++ []) := by
        rintro rfl
        rw [List.append_nil]
        exact h done rest hcs
      have htail := ih (done ++ [c]) (by simpa using hcs)
      rw [List.reverse_append] at htail
      rw [lowerIn_cons, lowerIn_cons, lowerBetween_congr hends]
      exact congrArg _ htail
  exact hrest [] cs rfl

/-- No sigma of the text follows a letter. So none ends a word, in the text or in a piece of it. -/
def SigmaFree (cs : List Char) : Prop := ∀ a b, cs = a ++ 'Σ' :: b → reachesCased a.reverse = false

theorem SigmaFree.keepsSigmas (h : SigmaFree (before.reverse ++ (cs ++ after))) :
    KeepsSigmas before cs after := by
  rintro a b rfl
  have hwhole : reachesCased (a.reverse ++ before) = false := by
    have := h (before.reverse ++ a) (b ++ after) (by simp)
    simpa using this
  have halone : reachesCased a.reverse = false :=
    Bool.eq_false_iff.mpr fun hreaches => by simp [reachesCased_append hreaches] at hwhole
  rw [endsWord, endsWord, hwhole, halone]
  rfl

/-! ### Blanks -/

/-- The white space as runs. -/
def blankRuns : List LowerRun := blankRanges.map fun r => ⟨r.1, r.2, 1, 0⟩

theorem isBlank_iff_covers : isBlank c = true ↔ ∃ r ∈ blankRuns, r.covers c.toNat = true := by
  rw [isBlank, inRanges_iff, blankRuns]
  simp [LowerRun.covers_iff, Nat.mod_one]

/-- Case-ignorable and cased characters are not blank. -/
theorem blank_apart_from_cased : ∀ r ∈ caseIgnorableRanges ++ casedRanges, ∀ b ∈ blankRanges,
    (Nat.blt r.2 b.1 || Nat.blt b.2 r.1) = true := by
  have h : ((caseIgnorableRanges ++ casedRanges).all fun r => blankRanges.all fun b =>
      Nat.blt r.2 b.1 || Nat.blt b.2 r.1) = true := by
    decide +kernel
  intro r hr b hb
  exact List.all_eq_true.mp (List.all_eq_true.mp h r hr) b hb

/-- No character that has another one as its lowercase form is blank, and neither is that one. -/
theorem runs_apart_from_blank : ∀ r ∈ lowerRuns, ∀ b ∈ blankRuns,
    ((Nat.blt r.last b.first || Nat.blt b.last r.first) && r.misses b) = true := by
  have h : (lowerRuns.all fun r => blankRuns.all fun b =>
      (Nat.blt r.last b.first || Nat.blt b.last r.first) && r.misses b) = true := by
    decide +kernel
  intro r hr b hb
  exact List.all_eq_true.mp (List.all_eq_true.mp h r hr) b hb

theorem reachesCased_cons_of_blank (hc : isBlank c = true) : reachesCased (c :: cs) = false := by
  have hapart : ∀ rs, rs ⊆ caseIgnorableRanges ++ casedRanges → inRanges rs c = false := by
    intro rs hrs
    rw [Bool.eq_false_iff, ne_eq, inRanges_iff]
    rintro ⟨r, hr, hlo, hhi⟩
    obtain ⟨b, hb, hblo, hbhi⟩ := inRanges_iff.mp hc
    have := blank_apart_from_cased r (hrs hr) b hb
    simp only [Bool.or_eq_true, Nat.blt_eq] at this
    omega
  rw [reachesCased_cons, hapart _ (List.subset_append_left _ _),
    hapart _ (List.subset_append_right _ _)]
  rfl

theorem isBlank_lowerChar (c : Char) : isBlank (lowerChar c) = isBlank c := by
  cases hfind : lowerRuns.find? fun r => r.covers c.toNat with
  | none => rw [lowerChar, hfind]
  | some r =>
    have hr : r ∈ lowerRuns := List.mem_of_find?_eq_some hfind
    have hcovers : r.covers c.toNat = true := by simpa using List.find?_some hfind
    have himage : (lowerChar c).toNat = ((c.toNat : Int) + r.shift).toNat := by
      rw [lowerChar, hfind]
      exact LowerRun.toNat_image (runs_stayValid r hr) hcovers
    obtain ⟨hfirst, hlast, -⟩ := LowerRun.covers_iff.mp hcovers
    have hbefore : isBlank c = false := by
      rw [Bool.eq_false_iff, ne_eq, isBlank_iff_covers]
      rintro ⟨b, hb, hcb⟩
      obtain ⟨hfirst', hlast', -⟩ := LowerRun.covers_iff.mp hcb
      have := runs_apart_from_blank r hr b hb
      simp only [Bool.and_eq_true, Bool.or_eq_true, Nat.blt_eq] at this
      omega
    have hafter : isBlank (lowerChar c) = false := by
      rw [Bool.eq_false_iff, ne_eq, isBlank_iff_covers]
      rintro ⟨b, hb, hcb⟩
      have hmisses := (Bool.and_eq_true_iff.mp (runs_apart_from_blank r hr b hb)).2
      rw [himage, LowerRun.not_covers_image hmisses (runs_stayValid r hr) hcovers] at hcb
      cases hcb
    rw [hbefore, hafter]

theorem isBlank_of_mem_lowerBetween (h : d ∈ lowerBetween before after c) :
    isBlank d = isBlank c := by
  unfold lowerBetween at h
  split at h
  · next hc =>
    subst hc
    rcases List.mem_cons.mp h with rfl | h
    · decide
    · obtain rfl := List.mem_singleton.mp h
      decide
  · split at h
    · next hc =>
      subst hc
      split at h <;> obtain rfl := List.mem_singleton.mp h <;> decide
    · obtain rfl := List.mem_singleton.mp h
      exact isBlank_lowerChar c

theorem lowerBetween_ne_nil (before after : List Char) (c : Char) :
    lowerBetween before after c ≠ [] := by
  unfold lowerBetween
  split
  · exact List.cons_ne_nil _ _
  · split <;> exact List.cons_ne_nil _ _

/-- A blank is its own lowercase form. -/
theorem lowerBetween_of_blank (hc : isBlank c = true) : lowerBetween before after c = [c] := by
  refine lowerBetween_of_isLower ⟨?_, ?_, lowerChar_eq_self fun r hr => ?_⟩ before after
  · rintro rfl
    exact absurd hc (by decide)
  · rintro rfl
    exact absurd hc (by decide)
  · obtain ⟨b, hb, hcb⟩ := isBlank_iff_covers.mp hc
    obtain ⟨hfirst, hlast, -⟩ := LowerRun.covers_iff.mp hcb
    have hapart := runs_apart_from_blank r hr b hb
    simp only [Bool.and_eq_true, Bool.or_eq_true, Nat.blt_eq] at hapart
    rw [Bool.eq_false_iff, ne_eq, LowerRun.covers_iff]
    omega

theorem isBlank_head?_lowerIn :
    (lowerIn before after cs).head?.map isBlank = cs.head?.map isBlank := by
  cases cs with
  | nil => rfl
  | cons c cs =>
    have hne := lowerBetween_ne_nil before (cs ++ after) c
    have hblank := isBlank_of_mem_lowerBetween (List.head_mem hne)
    rw [lowerIn_cons, List.head?_append_of_ne_nil _ hne, List.head?_eq_some_head hne]
    exact congrArg some hblank

theorem isBlank_getLast?_lowerIn :
    (lowerIn before after cs).getLast?.map isBlank = cs.getLast?.map isBlank := by
  cases cs using List.reverseRecOn with
  | nil => rfl
  | append_singleton cs c =>
    have hne := lowerBetween_ne_nil (cs.reverse ++ before) ([] ++ after) c
    have hblank := isBlank_of_mem_lowerBetween (List.getLast_mem hne)
    rw [lowerIn_append, lowerIn_cons, lowerIn_nil, List.append_nil,
      List.getLast?_append_of_ne_nil _ hne, List.getLast?_eq_some_getLast hne, List.getLast?_concat]
    exact congrArg some hblank

theorem all_isBlank_lowerFrom (before cs : List Char) :
    (lowerFrom before cs).all isBlank = cs.all isBlank := by
  induction cs generalizing before with
  | nil => rfl
  | cons c cs ih =>
    have hhead := List.head_mem (lowerBetween_ne_nil before cs c)
    have hblank : (lowerBetween before cs c).all isBlank = isBlank c := by
      rw [Bool.eq_iff_iff, List.all_eq_true]
      constructor
      · intro h
        rw [← isBlank_of_mem_lowerBetween hhead]
        exact h _ hhead
      · intro hc d hd
        rwa [isBlank_of_mem_lowerBetween hd]
    rw [lowerFrom_cons, List.all_append, ih, hblank, List.all_cons]

/-! ### Blanks in order -/

variable {inRun atStart atEnd : Bool}

/-- Behind a character that is not blank, the pass leaves the letters where they are. -/
theorem reachesCased_tidy (atEnd : Bool) (cs : List Char) :
    reachesCased (tidy false atEnd cs) = reachesCased cs := by
  induction cs with
  | nil => rfl
  | cons c cs ih =>
    cases hc : isBlank c with
    | true =>
      rw [tidy_cons_of_blank hc, reachesCased_cons_of_blank hc]
      split
      · next hend =>
        obtain ⟨rfl, hall⟩ : atEnd = true ∧ cs.all isBlank = true := by simpa using hend
        rw [tidy_of_all hall]
        rfl
      · exact reachesCased_cons_of_blank isBlank_space
    | false => rw [tidy_cons_of_not_blank hc, reachesCased_cons, reachesCased_cons, ih]

theorem tidy_append_of_forall_not_blank (hne : xs ≠ []) (hxs : ∀ c ∈ xs, isBlank c = false) :
    tidy inRun atEnd (xs ++ ys) = xs ++ tidy false atEnd ys := by
  induction xs generalizing inRun with
  | nil => exact absurd rfl hne
  | cons c xs ih =>
    obtain ⟨hc, hxs⟩ := List.forall_mem_cons.mp hxs
    rw [List.cons_append, tidy_cons_of_not_blank hc]
    cases xs with
    | nil => rfl
    | cons d xs =>
      rw [ih (by simp) hxs]
      rfl

/-- Lowercasing can be put before the pass, where a run of blanks hides the letters before it. -/
theorem lowerFrom_tidy (hbefore : reachesCased before = reachesCased before')
    (hrun : inRun = true → reachesCased before = false) :
    lowerFrom before (tidy inRun atEnd cs) = tidy inRun atEnd (lowerFrom before' cs) := by
  induction cs generalizing inRun before before' with
  | nil => rfl
  | cons c cs ih =>
    cases hc : isBlank c with
    | true =>
      have hblank : reachesCased (c :: before') = false := reachesCased_cons_of_blank hc
      have hspace : reachesCased (' ' :: before) = false := reachesCased_cons_of_blank isBlank_space
      have hlower : lowerFrom before' (c :: cs) = c :: lowerFrom (c :: before') cs := by
        rw [lowerFrom_cons, lowerBetween_of_blank hc]
        rfl
      rw [hlower, tidy_cons_of_blank hc, tidy_cons_of_blank hc, all_isBlank_lowerFrom]
      split
      · next hend =>
        rcases Bool.or_eq_true_iff.mp hend with hin | hall
        · exact ih ((hrun hin).trans hblank.symm) fun _ => hrun hin
        · obtain ⟨rfl, hall⟩ := Bool.and_eq_true_iff.mp hall
          rw [tidy_of_all hall, tidy_of_all ((all_isBlank_lowerFrom _ cs).trans hall)]
          rfl
      · have hcons : lowerFrom before (' ' :: tidy true atEnd cs) =
            ' ' :: lowerFrom (' ' :: before) (tidy true atEnd cs) := by
          rw [lowerFrom_cons, lowerBetween_of_blank isBlank_space]
          rfl
        rw [hcons, ih (hspace.trans hblank.symm) fun _ => hspace]
    | false =>
      have hends : endsWord before (tidy false atEnd cs) = endsWord before' cs := by
        rw [endsWord, endsWord, hbefore, reachesCased_tidy]
      have hnext : reachesCased (c :: before) = reachesCased (c :: before') :=
        reachesCased_append_congr hbefore [c]
      have hnot : ∀ d ∈ lowerBetween before' cs c, isBlank d = false := fun d hd =>
        (isBlank_of_mem_lowerBetween hd).trans hc
      rw [tidy_cons_of_not_blank hc, lowerFrom_cons, lowerFrom_cons,
        tidy_append_of_forall_not_blank (lowerBetween_ne_nil _ _ _) hnot,
        lowerBetween_congr fun _ => hends, ih hnext fun h => absurd h Bool.false_ne_true]

theorem lower_tidy (atStart atEnd : Bool) (cs : List Char) :
    lower (tidy atStart atEnd cs) = tidy atStart atEnd (lower cs) :=
  lowerFrom_tidy rfl fun _ => rfl

end Directory.Text
