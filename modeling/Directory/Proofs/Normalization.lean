import Directory.Proofs.Definitions
import Directory.Proofs.LetterContext
import Directory.Proofs.StoreSync

/-!
# Normalizing twice

A normal value that is written back as raw text is read as the same normal value again, whatever
raw text it came from and under whatever normalizer (`normalize_idempotent`).

* Blanks in order stay in order. Lowercasing neither makes nor removes blanks, so that the two can
  be done in either order and have nothing left to do the second time.
* An integer has many spellings, with a sign, with zeros in front and with blanks around it
  (`Spells`). All of them are read as the integer (`normalize_of_spells`), and one of them is how it
  is written.
-/

namespace Directory

namespace Text

variable {cs before after : List Char} {n : Int}

/-! ### Blanks -/

theorem squeeze_squeeze (cs : List Char) : squeeze (squeeze cs) = squeeze cs := by
  rw [squeeze_eq_tidy, squeeze_eq_tidy, tidy_tidy]

/-- Squeezing and lowercasing again changes nothing. -/
theorem lower_squeeze_lower_squeeze (cs : List Char) :
    lower (squeeze (lower (squeeze cs))) = lower (squeeze cs) := by
  simp only [squeeze_eq_tidy]
  calc lower (tidy true true (lower (tidy true true cs)))
      = lower (tidy true true (tidy true true (lower cs))) := by rw [lower_tidy true true cs]
    _ = tidy true true (lower (lower cs)) := by rw [tidy_tidy, lower_tidy]
    _ = lower (tidy true true cs) := by rw [lower_lower, lower_tidy]

/-- Blanks around a text without blanks are all that is trimmed. -/
theorem trim_of_edges (hbefore : ∀ c ∈ before, isBlank c = true)
    (hafter : ∀ c ∈ after, isBlank c = true) (hne : cs ≠ []) (hcs : ∀ c ∈ cs, isBlank c = false) :
    trim (before ++ cs ++ after) = cs := by
  have hstart : trimStart (before ++ cs ++ after) = cs ++ after := by
    rw [trimStart, List.append_assoc, List.dropWhile_append_of_pos hbefore]
    cases cs with
    | nil => exact absurd rfl hne
    | cons c cs => simp [hcs c List.mem_cons_self]
  have hend : trimEnd (cs ++ after) = trimEnd cs := by
    have hafter' : ∀ c ∈ after.reverse, isBlank c = true := by simpa using hafter
    rw [trimEnd, List.reverse_append, List.dropWhile_append_of_pos hafter', trimEnd]
  have hself : trimStart cs = cs := by
    cases cs with
    | nil => rfl
    | cons c cs => simp [trimStart, hcs c List.mem_cons_self]
  calc trim (before ++ cs ++ after) = trimEnd cs := by rw [trim, hstart, hend]
    _ = trim cs := by rw [trim, hself]
    _ = cs := trim_eq_self hcs

/-! ### Integers -/

/-- The text is a way to write the integer: its digits behind any number of zeros, and a sign in
front, which only the negative integers need. -/
inductive Spells : List Char → Int → Prop where
  | plain (zeros n : Nat) : Spells (List.replicate zeros '0' ++ showNatural n) n
  | plus (zeros n : Nat) : Spells ('+' :: (List.replicate zeros '0' ++ showNatural n)) n
  | minus (zeros n : Nat) : Spells ('-' :: (List.replicate zeros '0' ++ showNatural n)) (-n)

theorem isDigit_of_mem_padded {zeros n : Nat} {c : Char}
    (hc : c ∈ List.replicate zeros '0' ++ showNatural n) : c.isDigit = true := by
  rcases List.mem_append.mp hc with hc | hc
  · rw [List.eq_of_mem_replicate hc]
    rfl
  · exact Nat.isDigit_of_mem_toDigits (by decide) (by decide) hc

/-- Zeros in front of the digits do not count. -/
theorem ofDigitChars_padded (zeros n : Nat) :
    Nat.ofDigitChars 10 (List.replicate zeros '0' ++ showNatural n) 0 = n := by
  induction zeros with
  | zero => exact Nat.ofDigitChars_ten_toDigits
  | succ zeros ih => exact ih

theorem readDigits_padded (zeros n : Nat) :
    readDigits (List.replicate zeros '0' ++ showNatural n) = some n := by
  have hne : List.replicate zeros '0' ++ showNatural n ≠ [] := by
    simp [showNatural, Nat.toDigits_ne_nil]
  have hall : (List.replicate zeros '0' ++ showNatural n).all Char.isDigit = true :=
    List.all_eq_true.mpr fun c hc => isDigit_of_mem_padded hc
  rw [readDigits, if_pos ⟨hne, hall⟩, ofDigitChars_padded]

/-- A text that begins with a digit has no sign. -/
theorem readInteger_of_digit {c : Char} (hc : c.isDigit = true) (cs : List Char) :
    readInteger (c :: cs) = (readDigits (c :: cs)).map fun n => (n : Int) := by
  have hminus : c ≠ '-' := by rintro rfl; cases hc
  have hplus : c ≠ '+' := by rintro rfl; cases hc
  simp [readInteger, readNatural, hminus, hplus]

/-- An integer is read from all its spellings. -/
theorem Spells.readInteger_eq (h : Spells cs n) : readInteger cs = some n := by
  cases h with
  | plain zeros n =>
    cases htext : List.replicate zeros '0' ++ showNatural n with
    | nil => simp [showNatural, Nat.toDigits_ne_nil] at htext
    | cons c cs =>
      have hc : c.isDigit = true := isDigit_of_mem_padded (htext ▸ List.mem_cons_self)
      rw [readInteger_of_digit hc, ← htext, readDigits_padded]
      rfl
  | plus zeros n => simp [readInteger, readNatural, readDigits_padded]
  | minus zeros n =>
    rw [readInteger, readDigits_padded]
    rfl

theorem Spells.isBlank_eq_false (h : Spells cs n) : ∀ c ∈ cs, isBlank c = false := by
  have hdigit : ∀ {c : Char}, c.isDigit = true → isBlank c = false := fun hc =>
    isBlank_eq_false_of_numeric (Bool.or_eq_true_iff.mpr (.inr hc))
  cases h with
  | plain zeros n => exact fun c hc => hdigit (isDigit_of_mem_padded hc)
  | plus zeros n =>
    exact List.forall_mem_cons.mpr ⟨by decide, fun c hc => hdigit (isDigit_of_mem_padded hc)⟩
  | minus zeros n =>
    exact List.forall_mem_cons.mpr ⟨by decide, fun c hc => hdigit (isDigit_of_mem_padded hc)⟩

theorem Spells.ne_nil (h : Spells cs n) : cs ≠ [] := by
  cases h with
  | plain zeros n => simp [showNatural, Nat.toDigits_ne_nil]
  | plus zeros n => exact List.cons_ne_nil _ _
  | minus zeros n => exact List.cons_ne_nil _ _

/-- An integer is written in one of its spellings. -/
theorem spells_showInteger (n : Int) : Spells (showInteger n) n := by
  cases n with
  | ofNat n => exact .plain 0 n
  | negSucc n => exact .minus 0 (n + 1)

end Text

namespace Normalizer

variable {nz : Normalizer} {raw : String} {v : NormalValue} {before after cs : List Char} {n : Int}

/-- An integer of 64 bits is read from all its spellings, with any blanks around them. -/
theorem normalize_of_spells (hn : isNumericValue n = true) (hcs : Text.Spells cs n)
    (hbefore : ∀ c ∈ before, Text.isBlank c = true) (hafter : ∀ c ∈ after, Text.isBlank c = true) :
    numeric.normalize (String.ofList (before ++ cs ++ after)) = .ok (.integer n) := by
  have hread : Text.readInteger (Text.trim (before ++ cs ++ after)) = some n := by
    rw [Text.trim_of_edges hbefore hafter hcs.ne_nil hcs.isBlank_eq_false, hcs.readInteger_eq]
  simp only [normalize, String.toList_ofList, hread, hn, if_true]

theorem normalize_numeric_eq_ok (h : numeric.normalize raw = .ok v) :
    ∃ n, isNumericValue n = true ∧ v = .integer n := by
  unfold normalize at h
  dsimp only at h
  split at h
  · next n _ =>
    split at h
    · next hn =>
      cases h
      exact ⟨n, hn, rfl⟩
    · cases h
  · cases h

theorem normalize_boolean_eq_ok (h : boolean.normalize raw = .ok v) :
    v = .text "TRUE" ∨ v = .text "FALSE" := by
  unfold normalize at h
  dsimp only at h
  split at h
  · next hword =>
    cases h
    exact hword.imp (congrArg _) (congrArg _)
  · cases h

/-- Writing a normal value back and reading it again changes nothing. -/
theorem normalize_display (h : nz.normalize raw = .ok v) : nz.normalize v.display = .ok v := by
  cases nz with
  | noOp =>
    cases h
    rfl
  | deepTrim =>
    cases h
    simp only [normalize, NormalValue.display, String.toList_ofList, Text.squeeze_squeeze]
  | deepTrimToLower =>
    cases h
    simp only [normalize, NormalValue.display, String.toList_ofList,
      Text.lower_squeeze_lower_squeeze]
  | numeric =>
    obtain ⟨n, hn, rfl⟩ := normalize_numeric_eq_ok h
    have hread := @normalize_of_spells [] [] _ n hn (Text.spells_showInteger n) nofun nofun
    simpa [NormalValue.display] using hread
  | boolean =>
    rcases normalize_boolean_eq_ok h with rfl | rfl
    · decide +kernel
    · decide +kernel

end Normalizer

/-- **Normal values stay as they are.** What a normalizer makes of a raw text, it makes again of the
normal value written back as text. This goes for all raw texts. Among them are the spellings of the
integers of 64 bits, all of which are read. And it goes for the keys that writes have put into an
index, so that a key written back as a value is its own key. -/
theorem normalize_idempotent :
    (∀ (nz : Normalizer) raw v, nz.normalize raw = .ok v → nz.normalize v.display = .ok v) ∧
    (∀ n cs before after, isNumericValue n = true → Text.Spells cs n →
      (∀ c ∈ before, Text.isBlank c = true) → (∀ c ∈ after, Text.isBlank c = true) →
      Normalizer.numeric.normalize (String.ofList (before ++ cs ++ after)) = .ok (.integer n)) ∧
    ∀ (r : Registry) (s : Store), s.Reachable r → ∀ ix ∈ s.indexes, ∀ key id,
      (key, id) ∈ ix.postings.forward → ix.normalize key.display = .ok key := by
  refine ⟨fun nz raw v => Normalizer.normalize_display,
    fun n cs before after => Normalizer.normalize_of_spells, ?_⟩
  intro r s hs ix hix key id hkey
  obtain ⟨e, -, description, raws, t, raw, -, -, -, -, hnorm⟩ :=
    (hs.synced.forward ix hix key id).mp hkey
  exact Normalizer.normalize_display hnorm

/-- A sigma at the end of a word before a run of blanks, and a letter whose lowercase form has two
characters; the least integer, behind zeros and blanks; the key of an entry. -/
theorem normalize_idempotent_cases :
    let s := (Store.new "people").performAll .people
      [.addIndex "cn" false, .addEntry (.named 1 " ΟΔΟΣ \u2003 İ ")]
    Normalizer.deepTrimToLower.normalize " ΟΔΟΣ \u2003 İ " = .ok (.text "οδος i\u0307") ∧
      Normalizer.deepTrimToLower.normalize "οδος i\u0307" = .ok (.text "οδος i\u0307") ∧
      Normalizer.numeric.normalize "\t-009223372036854775808 " =
        .ok (.integer (-9223372036854775808)) ∧
      ∃ ix ∈ s.indexes, (.text "οδος i\u0307", 1) ∈ ix.postings.forward ∧
        ix.normalize "οδος i\u0307" = .ok (.text "οδος i\u0307") := by
  intro s
  obtain ⟨hagain, hspelled, hkeys⟩ := normalize_idempotent
  have hs : s.Reachable .people := (Store.Reachable.new "people").performAll _
  have hnorm : Normalizer.deepTrimToLower.normalize " ΟΔΟΣ \u2003 İ " =
      .ok (.text "οδος i\u0307") := by decide +kernel
  have hleast := Text.Spells.minus 2 9223372036854775808
  have hspelling := hspelled _ _ ['\t'] [' '] (by decide) hleast
    (List.forall_mem_singleton.mpr (by decide)) (List.forall_mem_singleton.mpr (by decide))
  have htext : "\t-009223372036854775808 " =
      String.ofList (['\t'] ++ '-' :: (['0', '0'] ++ Text.showNatural 9223372036854775808) ++
        [' ']) := by decide +kernel
  have hindexed : (s.indexes.any fun ix =>
      ix.postings.forward.contains (.text "οδος i\u0307", 1)) = true := by decide +kernel
  obtain ⟨ix, hix, hkey⟩ := List.any_eq_true.mp hindexed
  rw [SortedSet.contains_iff] at hkey
  exact ⟨hnorm, hagain _ _ _ hnorm, htext ▸ hspelling, ix, hix, hkey,
    hkeys .people s hs ix hix _ _ hkey⟩

end Directory
