import Directory.Text.Case
import Mathlib.Data.List.Forall2

/-!
# Lowercase forms

The images of the lowercase mapping are characters that it leaves alone. For the table of runs this
is a fact about pairs of runs: the images of one miss the code points of the other, since they lie
apart or fall between them (`runs_miss`). So a text is its own lowercase form exactly when each of
its characters is (`lower_eq_self_iff`), and lowercasing twice is lowercasing once.

The letters A to Z lowercase to the letters a to z, and mean the same to their neighbours. So texts
that agree up to the case of these letters have one lowercase form (`lower_asciiUpper`).
-/

namespace Directory.Text

/-! ### The table -/

/-- The first code point of the images of a run. -/
def LowerRun.imageFirst (r : LowerRun) : Nat := (r.first + r.shift).toNat

/-- The last code point of the images of a run. -/
def LowerRun.imageLast (r : LowerRun) : Nat := (r.last + r.shift).toNat

/-- The images of the first run are no code points of the second: they lie before or behind it, or
between its points. -/
def LowerRun.misses (r r' : LowerRun) : Bool :=
  Nat.blt r.imageLast r'.first || Nat.blt r'.last r.imageFirst ||
    (r'.stride == 2 && (r.first == r.last || r.stride == 2) && (r.imageFirst + r'.first) % 2 == 1)

/-- The images of the run are characters. -/
def LowerRun.staysValid (r : LowerRun) : Bool :=
  decide (0 ≤ (r.first : Int) + r.shift) &&
    (Nat.blt r.imageLast 0xD800 ||
      (Nat.blt 0xDFFF r.imageFirst && Nat.blt r.imageLast 0x110000))

/-- The two characters with a lowercase form of their own, as runs. -/
def specialRuns : List LowerRun := [⟨0x130, 0x130, 1, 0⟩, ⟨0x3A3, 0x3A3, 1, 0⟩]

theorem runs_miss : ∀ r ∈ lowerRuns, ∀ r' ∈ specialRuns ++ lowerRuns, r.misses r' = true := by
  have h : (lowerRuns.all fun r => (specialRuns ++ lowerRuns).all r.misses) = true := by
    decide +kernel
  intro r hr r' hr'
  exact List.all_eq_true.mp (List.all_eq_true.mp h r hr) r' hr'

theorem runs_stayValid : ∀ r ∈ lowerRuns, r.staysValid = true :=
  List.all_eq_true.mp (by decide +kernel)

theorem LowerRun.covers_iff {r : LowerRun} {n : Nat} :
    r.covers n = true ↔ r.first ≤ n ∧ n ≤ r.last ∧ (n - r.first) % r.stride = 0 := by
  simp [covers, and_assoc]

/-- A run that is missed does not apply to an image. -/
theorem LowerRun.not_covers_image {r r' : LowerRun} (hmiss : r.misses r' = true)
    (hvalid : r.staysValid = true) {n : Nat} (hn : r.covers n = true) :
    r'.covers ((n : Int) + r.shift).toNat = false := by
  obtain ⟨hfirst, hlast, hstep⟩ := covers_iff.mp hn
  have hpos : 0 ≤ (r.first : Int) + r.shift := by
    simp only [staysValid, Bool.and_eq_true, decide_eq_true_eq] at hvalid
    exact hvalid.1
  rw [Bool.eq_false_iff, ne_eq, covers_iff]
  rintro ⟨hfirst', hlast', hstep'⟩
  simp only [misses, imageFirst, imageLast, Bool.or_eq_true, Bool.and_eq_true, Nat.blt_eq,
    beq_iff_eq] at hmiss
  rcases hmiss with (hbefore | hbehind) | ⟨⟨hstride', hone | hstride⟩, hodd⟩
  · omega
  · omega
  -- the images have another parity than the points of the second run
  · rw [hstride'] at hstep'
    omega
  · rw [hstride] at hstep
    rw [hstride'] at hstep'
    omega

/-! ### Characters -/

/-- The character is its own lowercase form, wherever it stands. -/
def IsLower (c : Char) : Prop := c ≠ 'İ' ∧ c ≠ 'Σ' ∧ lowerChar c = c

instance : DecidablePred IsLower := fun _ => inferInstanceAs (Decidable (_ ∧ _ ∧ _))

theorem toNat_ofNat {n : Nat} (h : n < 0xD800 ∨ 0xDFFF < n ∧ n < 0x110000) :
    (Char.ofNat n).toNat = n := by
  have hvalid : n.isValidChar := h.imp id id
  rw [Char.ofNat, dif_pos hvalid]
  rfl

/-- The image of a character under a run that applies to it. -/
theorem LowerRun.toNat_image {r : LowerRun} (hvalid : r.staysValid = true) {n : Nat}
    (hn : r.covers n = true) :
    (Char.ofNat ((n : Int) + r.shift).toNat).toNat = ((n : Int) + r.shift).toNat := by
  obtain ⟨hfirst, hlast, -⟩ := covers_iff.mp hn
  simp only [staysValid, imageFirst, imageLast, Bool.and_eq_true, Bool.or_eq_true,
    decide_eq_true_eq, Nat.blt_eq] at hvalid
  apply toNat_ofNat
  omega

/-- A character stays when no run applies to it, and otherwise moves out of reach of all runs. -/
theorem lowerChar_cases (c : Char) :
    (lowerChar c = c ∧ ∀ r ∈ lowerRuns, r.covers c.toNat = false) ∨
      ∀ r ∈ specialRuns ++ lowerRuns, r.covers (lowerChar c).toNat = false := by
  cases hfind : lowerRuns.find? fun r => r.covers c.toNat with
  | none =>
    left
    refine ⟨by rw [lowerChar, hfind], fun r hr => ?_⟩
    simpa using List.find?_eq_none.mp hfind r hr
  | some r =>
    right
    have hr : r ∈ lowerRuns := List.mem_of_find?_eq_some hfind
    have hc : r.covers c.toNat = true := by simpa using List.find?_some hfind
    have himage : (lowerChar c).toNat = ((c.toNat : Int) + r.shift).toNat := by
      rw [lowerChar, hfind]
      exact LowerRun.toNat_image (runs_stayValid r hr) hc
    intro r' hr'
    rw [himage]
    exact LowerRun.not_covers_image (runs_miss r hr r' hr') (runs_stayValid r hr) hc

/-- A character that no run applies to stays. -/
theorem lowerChar_eq_self {c : Char} (h : ∀ r ∈ lowerRuns, r.covers c.toNat = false) :
    lowerChar c = c := by
  have hnone : lowerRuns.find? (fun r => r.covers c.toNat) = none := by
    rw [List.find?_eq_none]
    intro r hr
    simp [h r hr]
  rw [lowerChar, hnone]

/-- The runs begin with the letter A, so that digits and punctuation before it stay. -/
theorem isLower_of_lt {c : Char} (h : c.toNat < 0x41) : IsLower c := by
  have hfirst : ∀ r ∈ lowerRuns, 0x41 ≤ r.first := by decide +kernel
  have hne : ∀ d : Char, 0x41 ≤ d.toNat → c ≠ d := fun d hd hcd => by
    rw [hcd] at h
    omega
  refine ⟨hne 'İ' (by decide), hne 'Σ' (by decide), lowerChar_eq_self fun r hr => ?_⟩
  rw [Bool.eq_false_iff, ne_eq, LowerRun.covers_iff]
  have := hfirst r hr
  omega

theorem isLower_lowerChar {c : Char} (hi : c ≠ 'İ') (hs : c ≠ 'Σ') : IsLower (lowerChar c) := by
  rcases lowerChar_cases c with ⟨hc, -⟩ | hmissed
  · rw [IsLower, hc]
    exact ⟨hi, hs, hc⟩
  · refine ⟨?_, ?_, lowerChar_eq_self fun r hr => hmissed r (List.mem_append_right _ hr)⟩
    · intro hc
      rw [hc] at hmissed
      exact absurd (hmissed ⟨0x130, 0x130, 1, 0⟩ (by simp [specialRuns])) (by decide)
    · intro hc
      rw [hc] at hmissed
      exact absurd (hmissed ⟨0x3A3, 0x3A3, 1, 0⟩ (by simp [specialRuns])) (by decide)

theorem isLower_of_mem_lowerBetween {before after : List Char} {c d : Char}
    (h : d ∈ lowerBetween before after c) : IsLower d := by
  unfold lowerBetween at h
  split at h
  · rcases List.mem_cons.mp h with rfl | h
    · decide +kernel
    · obtain rfl := List.mem_singleton.mp h
      decide +kernel
  · next hi =>
    split at h
    · split at h <;> obtain rfl := List.mem_singleton.mp h <;> decide +kernel
    · next hs =>
      obtain rfl := List.mem_singleton.mp h
      exact isLower_lowerChar hi hs

theorem lowerBetween_of_isLower {c : Char} (hc : IsLower c) (before after : List Char) :
    lowerBetween before after c = [c] := by
  rw [lowerBetween, if_neg hc.1, if_neg hc.2.1, hc.2.2]

/-! ### Texts -/

theorem isLower_of_mem_lower {cs : List Char} {d : Char} (h : d ∈ lower cs) : IsLower d := by
  have hfrom : ∀ before cs, d ∈ lowerFrom before cs → IsLower d := by
    intro before cs
    induction cs generalizing before with
    | nil => exact fun h => absurd h List.not_mem_nil
    | cons c cs ih =>
      rw [lowerFrom_cons, List.mem_append]
      rintro (h | h)
      · exact isLower_of_mem_lowerBetween h
      · exact ih _ h
  exact hfrom [] cs h

theorem lower_eq_self {cs : List Char} (h : ∀ c ∈ cs, IsLower c) : lower cs = cs := by
  have hfrom : ∀ before cs, (∀ c ∈ cs, IsLower c) → lowerFrom before cs = cs := by
    intro before cs
    induction cs generalizing before with
    | nil => exact fun _ => rfl
    | cons c cs ih =>
      intro h
      obtain ⟨hc, hcs⟩ := List.forall_mem_cons.mp h
      rw [lowerFrom_cons, lowerBetween_of_isLower hc, ih _ hcs]
      rfl
  exact hfrom [] cs h

/-- A text is its own lowercase form when its characters are. -/
theorem lower_eq_self_iff {cs : List Char} : lower cs = cs ↔ ∀ c ∈ cs, IsLower c := by
  constructor
  · intro h c hc
    exact isLower_of_mem_lower (h ▸ hc)
  · exact lower_eq_self

theorem lower_lower (cs : List Char) : lower (lower cs) = lower cs :=
  lower_eq_self fun _ => isLower_of_mem_lower

/-! ### Letters A to Z -/

theorem toNat_toUpper (c : Char) :
    c.toUpper.toNat = if 0x61 ≤ c.toNat ∧ c.toNat ≤ 0x7A then c.toNat - 32 else c.toNat := by
  have hrange : ('a'.val ≤ c.val ∧ c.val ≤ 'z'.val) ↔ 0x61 ≤ c.toNat ∧ c.toNat ≤ 0x7A :=
    and_congr UInt32.le_iff_toNat_le UInt32.le_iff_toNat_le
  unfold Char.toUpper
  split
  · next h =>
    have h' := hrange.mp h
    rw [if_pos h']
    show (c.val + ('A'.val - 'a'.val)).toNat = c.val.toNat - 32
    have h' : 0x61 ≤ c.val.toNat ∧ c.val.toNat ≤ 0x7A := h'
    have hdiff : ('A'.val - 'a'.val).toNat = 4294967264 := rfl
    rw [UInt32.toNat_add, hdiff]
    omega
  · next h => rw [if_neg (mt hrange.mpr h)]

/-- Lowercasing makes no difference between the two characters, whatever stands around them. -/
structure LowersAlike (c d : Char) : Prop where
  alone : lowerChar c = lowerChar d
  cased : inRanges casedRanges c = inRanges casedRanges d
  ignorable : inRanges caseIgnorableRanges c = inRanges caseIgnorableRanges d
  dotted : c = 'İ' ↔ d = 'İ'
  sigma : c = 'Σ' ↔ d = 'Σ'

theorem reachesCased_congr {a b : List Char} (h : List.Forall₂ LowersAlike a b) :
    reachesCased a = reachesCased b := by
  induction h with
  | nil => rfl
  | @cons c d a b hcd _ ih =>
    unfold reachesCased at ih ⊢
    rw [List.dropWhile_cons, List.dropWhile_cons, hcd.ignorable]
    cases inRanges caseIgnorableRanges d with
    | true => exact ih
    | false => exact hcd.cased

theorem lowerFrom_congr {a b before before' : List Char} (h : List.Forall₂ LowersAlike a b)
    (hbefore : List.Forall₂ LowersAlike before before') :
    lowerFrom before a = lowerFrom before' b := by
  induction h generalizing before before' with
  | nil => rfl
  | @cons c d a b hcd hab ih =>
    have hbetween : lowerBetween before a c = lowerBetween before' b d := by
      unfold lowerBetween endsWord
      simp only [hcd.dotted, hcd.sigma, hcd.alone, reachesCased_congr hbefore,
        reachesCased_congr hab]
    rw [lowerFrom_cons, lowerFrom_cons, hbetween, ih (.cons hcd hbefore)]

/-- The first run is that of the letters A to Z. -/
theorem lowerChar_of_capital {c : Char} (h : 0x41 ≤ c.toNat ∧ c.toNat ≤ 0x5A) :
    lowerChar c = Char.ofNat (c.toNat + 32) := by
  have hcovers : LowerRun.covers ⟨0x41, 0x5A, 1, 32⟩ c.toNat = true :=
    LowerRun.covers_iff.mpr ⟨h.1, h.2, Nat.mod_one _⟩
  have hfind : lowerRuns.find? (fun r => r.covers c.toNat) = some ⟨0x41, 0x5A, 1, 32⟩ :=
    List.find?_cons_of_pos hcovers
  rw [lowerChar, hfind]
  rfl

/-- No letter is ignored when sigma looks for the end of its word. -/
theorem not_ignorable_of_letter {c : Char}
    (h : 0x41 ≤ c.toNat ∧ c.toNat ≤ 0x5A ∨ 0x61 ≤ c.toNat ∧ c.toNat ≤ 0x7A) :
    inRanges caseIgnorableRanges c = false := by
  have hranges : (caseIgnorableRanges.all fun r =>
      Nat.blt r.2 0x41 || (Nat.blt 0x5A r.1 && Nat.blt r.2 0x61) || Nat.blt 0x7A r.1) = true := by
    decide +kernel
  rw [Bool.eq_false_iff, ne_eq, inRanges_iff]
  rintro ⟨r, hr, hlo, hhi⟩
  have hr := List.all_eq_true.mp hranges r hr
  simp only [Bool.or_eq_true, Bool.and_eq_true, Nat.blt_eq] at hr
  omega

theorem lowersAlike_toUpper (c : Char) : LowersAlike c.toUpper c := by
  have hupper := toNat_toUpper c
  by_cases hc : 0x61 ≤ c.toNat ∧ c.toNat ≤ 0x7A
  · rw [if_pos hc] at hupper
    have hcapital : 0x41 ≤ c.toUpper.toNat ∧ c.toUpper.toNat ≤ 0x5A := by omega
    have hne : ∀ d : Char, 0x7A < d.toNat → c.toUpper ≠ d ∧ c ≠ d := fun d hd => by
      constructor <;> rintro rfl <;> omega
    have hdotted := hne 'İ' (by decide)
    have hsigma := hne 'Σ' (by decide)
    have halone : lowerChar c.toUpper = c := by
      rw [lowerChar_of_capital hcapital, hupper, Nat.sub_add_cancel (by omega), Char.ofNat_toNat]
    -- what has come out of lowercasing stays
    have hfixed : lowerChar c = c := halone ▸ (isLower_lowerChar hdotted.1 hsigma.1).2.2
    have hcased : inRanges casedRanges c.toUpper = true :=
      inRanges_iff.mpr ⟨(0x41, 0x5A), List.mem_cons_self, hcapital⟩
    have hcased' : inRanges casedRanges c = true :=
      inRanges_iff.mpr ⟨(0x61, 0x7A), List.mem_cons_of_mem _ List.mem_cons_self, hc⟩
    exact ⟨halone.trans hfixed.symm, hcased.trans hcased'.symm,
      (not_ignorable_of_letter (.inl hcapital)).trans (not_ignorable_of_letter (.inr hc)).symm,
      iff_of_false hdotted.1 hdotted.2, iff_of_false hsigma.1 hsigma.2⟩
  · rw [if_neg hc] at hupper
    rw [Char.toNat_inj.mp hupper]
    exact ⟨rfl, rfl, rfl, Iff.rfl, Iff.rfl⟩

/-- The lowercase form does not depend on the case of the letters A to Z. -/
theorem lower_asciiUpper (cs : List Char) : lower (asciiUpper cs) = lower cs := by
  refine lowerFrom_congr ?_ .nil
  rw [asciiUpper, List.forall₂_map_left_iff, List.forall₂_same]
  exact fun c _ => lowersAlike_toUpper c

end Directory.Text

namespace Directory

@[simp] theorem lowercase_lowercase (s : String) : lowercase (lowercase s) = lowercase s := by
  rw [lowercase, toList_lowercase, Text.lower_lower]
  rfl

theorem lowercase_eq_of_sameIgnoringAsciiCase {a b : String}
    (h : Text.sameIgnoringAsciiCase a b = true) : lowercase a = lowercase b := by
  rw [Text.sameIgnoringAsciiCase, beq_iff_eq] at h
  rw [lowercase, lowercase, ← Text.lower_asciiUpper a.toList, h, Text.lower_asciiUpper]

theorem lowercase_eq_self_iff {s : String} :
    lowercase s = s ↔ ∀ c ∈ s.toList, Text.IsLower c := by
  rw [← Text.lower_eq_self_iff, ← toList_lowercase, String.toList_inj]

/-- A dot and the digits lie between the code points of space and colon. -/
theorem bounds_of_numeric {c : Char} (h : (c == '.' || c.isDigit) = true) :
    0x20 < c.toNat ∧ c.toNat < 0x3A := by
  rw [Bool.or_eq_true, beq_iff_eq] at h
  rcases h with rfl | hdigit
  · decide
  · rw [Char.isDigit, Bool.and_eq_true, decide_eq_true_eq, decide_eq_true_eq] at hdigit
    have hzero : 0x30 ≤ c.toNat := UInt32.le_iff_toNat_le.mp hdigit.1
    have hnine : c.toNat ≤ 0x39 := UInt32.le_iff_toNat_le.mp hdigit.2
    omega

/-- Numbers with dots between them are their own lowercase form. -/
theorem lowercase_eq_self_of_numeric {s : String}
    (h : (s.toList.all fun c => c == '.' || c.isDigit) = true) : lowercase s = s := by
  refine lowercase_eq_self_iff.mpr fun c hc => Text.isLower_of_lt ?_
  have hbounds := bounds_of_numeric (List.all_eq_true.mp h c hc)
  omega

end Directory
