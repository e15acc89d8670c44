import Directory.Proofs.StoreContents

/-!
# Indexes by name

An index is looked up by comparing the name, up to the case of the letters A to Z, with what each
index is known as. A schema lowercases the name, letters of all kinds, and looks for the result.
Both find the same type as long as the name has no capital letters but those from A to Z
(`Text.PlainCapitals`, `isKnownAs_iff`). Any other capital letter hides the index from its name.
-/

namespace Directory

namespace Text

variable {c d : Char} {cs ds : List Char}

/-- One of the letters A to Z. -/
def IsCapital (c : Char) : Prop := 0x41 ≤ c.toNat ∧ c.toNat ≤ 0x5A

instance : DecidablePred IsCapital := fun _ => inferInstanceAs (Decidable (_ ∧ _))

/-- The only characters that are not in lowercase are the letters A to Z. -/
def PlainCapitals (cs : List Char) : Prop := ∀ c ∈ cs, IsCapital c ∨ IsLower c

instance : DecidablePred PlainCapitals := List.decidableBAll fun c => IsCapital c ∨ IsLower c

theorem not_isLower_of_isCapital (hc : IsCapital c) : ¬IsLower c := by
  rintro ⟨-, -, hself⟩
  have hlower := congrArg Char.toNat (lowerChar_of_capital hc)
  rw [hself, toNat_ofNat (by have := hc.2; omega)] at hlower
  omega

theorem toUpper_of_isCapital (hc : IsCapital c) : c.toUpper = c := by
  have hupper := toNat_toUpper c
  have := hc.2
  rw [if_neg (by omega)] at hupper
  exact Char.toNat_inj.mp hupper

theorem toUpper_lowerChar_of_isCapital (hc : IsCapital c) : (lowerChar c).toUpper = c := by
  obtain ⟨hfirst, hlast⟩ := hc
  have hlower : (lowerChar c).toNat = c.toNat + 32 := by
    rw [lowerChar_of_capital ⟨hfirst, hlast⟩, toNat_ofNat (by omega)]
  have hupper := toNat_toUpper (lowerChar c)
  rw [hlower, if_pos (by omega), Nat.add_sub_cancel] at hupper
  exact Char.toNat_inj.mp hupper

/-- Only one of the letters A to Z becomes a character in lowercase by its ASCII case alone. -/
theorem isCapital_or_eq_of_toUpper_eq (h : c.toUpper = d.toUpper) (hd : IsLower d) :
    IsCapital c ∨ c = d := by
  have hnot : ¬IsCapital d := fun hcap => not_isLower_of_isCapital hcap hd
  have hcode := congrArg Char.toNat h
  rw [toNat_toUpper, toNat_toUpper] at hcode
  unfold IsCapital at hnot ⊢
  by_cases hcd : c.toNat = d.toNat
  · exact .inr (Char.toNat_inj.mp hcd)
  · left
    split at hcode <;> split at hcode <;> omega

/-- In ASCII there are no other capitals. -/
theorem plainCapitals_of_ascii (h : ∀ c ∈ cs, c.toNat < 0x80) : PlainCapitals cs := by
  have hruns : (lowerRuns.all fun r =>
      (r.first == 0x41 && r.last == 0x5A) || Nat.ble 0x80 r.first) = true := by decide +kernel
  intro c hc
  have hascii := h c hc
  by_cases hcap : IsCapital c
  · exact .inl hcap
  · have hne : ∀ d : Char, 0x80 ≤ d.toNat → c ≠ d := fun d hd hcd => by
      rw [hcd] at hascii
      omega
    refine .inr ⟨hne 'İ' (by decide), hne 'Σ' (by decide), lowerChar_eq_self fun r hr => ?_⟩
    have hr := List.all_eq_true.mp hruns r hr
    simp only [Bool.or_eq_true, Bool.and_eq_true, beq_iff_eq, Nat.ble_eq] at hr
    rw [Bool.eq_false_iff, ne_eq, LowerRun.covers_iff]
    rintro ⟨hfirst, hlast, -⟩
    unfold IsCapital at hcap
    omega

theorem plainCapitals_of_asciiUpper_eq (h : asciiUpper cs = asciiUpper ds)
    (hds : ∀ d ∈ ds, IsLower d) : PlainCapitals cs := by
  intro c hc
  have hmem : c.toUpper ∈ asciiUpper ds := h ▸ List.mem_map_of_mem hc
  obtain ⟨d, hd, hsame⟩ := List.mem_map.mp hmem
  rcases isCapital_or_eq_of_toUpper_eq hsame.symm (hds d hd) with hcap | rfl
  · exact .inl hcap
  · exact .inr (hds c hd)

/-- With no other capitals, lowercasing changes the case of the letters A to Z only. -/
theorem PlainCapitals.asciiUpper_lower (h : PlainCapitals cs) :
    asciiUpper (lower cs) = asciiUpper cs := by
  have hfrom : ∀ before, asciiUpper (lowerFrom before cs) = asciiUpper cs := by
    induction cs with
    | nil => exact fun _ => rfl
    | cons c cs ih =>
      intro before
      obtain ⟨hc, hcs⟩ := List.forall_mem_cons.mp h
      have hhead : asciiUpper (lowerBetween before cs c) = [c.toUpper] := by
        rcases hc with hcap | hlow
        · have hne : ∀ d : Char, 0x5A < d.toNat → c ≠ d := fun d hd hcd =>
            absurd hcap.2 (by rw [hcd]; omega)
          rw [lowerBetween, if_neg (hne 'İ' (by decide)), if_neg (hne 'Σ' (by decide))]
          simp only [asciiUpper, List.map_cons, List.map_nil, toUpper_of_isCapital hcap,
            toUpper_lowerChar_of_isCapital hcap]
        · rw [lowerBetween_of_isLower hlow]
          rfl
      rw [lowerFrom_cons, asciiUpper, List.map_append]
      exact congrArg₂ (· ++ ·) hhead (ih hcs _)
  exact hfrom []

/-- Characters before the letter A are not another character in another case. -/
theorem eq_of_toUpper_eq (h : c.toUpper = d.toUpper) (hd : d.toNat < 0x41) : c = d := by
  have hcode := congrArg Char.toNat h
  rw [toNat_toUpper, toNat_toUpper, if_neg (by omega : ¬(0x61 ≤ d.toNat ∧ d.toNat ≤ 0x7A))] at hcode
  split at hcode
  · omega
  · exact Char.toNat_inj.mp hcode

theorem eq_of_asciiUpper_eq (h : asciiUpper cs = asciiUpper ds) (hds : ∀ d ∈ ds, d.toNat < 0x41) :
    cs = ds := by
  induction ds generalizing cs with
  | nil => exact List.map_eq_nil_iff.mp h
  | cons d ds ih =>
    obtain ⟨hd, hrest⟩ := List.forall_mem_cons.mp hds
    obtain ⟨c, cs', rfl, hcd, hcs⟩ := List.map_eq_cons_iff.mp h
    rw [eq_of_toUpper_eq hcd hd, ih hcs hrest]

end Text

/-! ### Names that agree -/

section Names

variable {name n : String}

/-- Up to the case of the letters A to Z, a text is another one in lowercase if the latter is its
lowercase form, and lowercasing changes no other letters. -/
theorem sameIgnoringAsciiCase_iff (hn : lowercase n = n) :
    Text.sameIgnoringAsciiCase n name = true ↔
      Text.PlainCapitals name.toList ∧ lowercase name = n := by
  constructor
  · intro h
    have hlower := lowercase_eq_of_sameIgnoringAsciiCase h
    rw [Text.sameIgnoringAsciiCase, beq_iff_eq] at h
    exact ⟨Text.plainCapitals_of_asciiUpper_eq h.symm (lowercase_eq_self_iff.mp hn),
      hlower.symm.trans hn⟩
  · rintro ⟨hplain, rfl⟩
    rw [Text.sameIgnoringAsciiCase, beq_iff_eq, toList_lowercase, hplain.asciiUpper_lower]

/-- A number with dots between its digits has one letter case only. -/
theorem sameIgnoringAsciiCase_numeric (hn : (n.toList.all fun c => c == '.' || c.isDigit) = true) :
    Text.sameIgnoringAsciiCase n name = true ↔ n = name := by
  rw [Text.sameIgnoringAsciiCase, beq_iff_eq]
  constructor
  · intro h
    have hself := Text.eq_of_asciiUpper_eq h.symm fun d hd => by
      have := bounds_of_numeric (List.all_eq_true.mp hn d hd)
      omega
    exact String.toList_inj.mp hself.symm
  · rintro rfl
    rfl

end Names

namespace Registry

variable {r : Registry} {t : AttributeType} {name : String}

/-- The OIDs are numbers with dots between them. -/
def NumericOids (r : Registry) : Prop :=
  ∀ t ∈ r.types, (t.oid.toList.all fun c => c == '.' || c.isDigit) = true

/-- A type is known as a name without other capitals than A to Z if the lowercase form of the name
is one of its identifiers. -/
theorem isKnownAs_iff (hr : r.Built) (ho : r.NumericOids) (ht : t ∈ r.types) :
    t.isKnownAs name = true ↔
      Text.PlainCapitals name.toList ∧ lowercase name ∈ t.identifiers := by
  have hsame : ∀ n ∈ t.identifiers, Text.sameIgnoringAsciiCase n name = true ↔
      Text.PlainCapitals name.toList ∧ lowercase name = n := fun n hn =>
    sameIgnoringAsciiCase_iff (hr.identifier_lowercase (lowercaseOids_of_numeric ho) ht hn)
  have hknown : t.isKnownAs name = true ↔
      ∃ n ∈ t.identifiers, Text.sameIgnoringAsciiCase n name = true := by
    simp only [AttributeType.isKnownAs, AttributeType.mem_identifiers, Bool.or_eq_true, beq_iff_eq,
      List.any_eq_true, ← sameIgnoringAsciiCase_numeric (ho t ht), or_and_right, exists_or,
      exists_eq_left]
    exact or_comm
  rw [hknown]
  constructor
  · rintro ⟨n, hn, h⟩
    obtain ⟨hplain, rfl⟩ := (hsame n hn).mp h
    exact ⟨hplain, hn⟩
  · rintro ⟨hplain, hn⟩
    exact ⟨_, hn, (hsame _ hn).mpr ⟨hplain, rfl⟩⟩

end Registry

/-! ### A name with an accent -/

/-- Countries, under a name with a letter that is not in ASCII. -/
def AttributeType.country : AttributeType :=
  { oid := "1.1", names := ["país"], equality := some .caseIgnoreMatch }

namespace Registry

/-- The schema that knows of countries only. -/
def countries : Registry := ⟨[.country]⟩

theorem built_countries : countries.Built := by
  have h : Registry.empty.register .country = .ok (.country, countries) := by decide +kernel
  exact Built.empty.register h

theorem numericOids_countries : countries.NumericOids := by
  intro t ht
  obtain rfl := List.mem_singleton.mp ht
  decide +kernel

end Registry

/-! ### Finding an index -/

namespace Store

variable {r : Registry} {s : Store} {ix : AttributeIndex} {name : String}

theorem attr_mem (hs : s.Checked r) (hix : ix ∈ s.indexes) : ix.attr ∈ r.types := by
  obtain ⟨⟨attr, hattr⟩, -⟩ := hs.declared ix hix
  exact Registry.resolve_mem hattr

theorem indexFor?_eq_some_iff (hr : r.Built) (ho : r.NumericOids) (hs : s.Reachable r) :
    s.indexFor? name = some ix ↔
      ix ∈ s.indexes ∧ r.resolve name = .ok ix.attr ∧ Text.PlainCapitals name.toList := by
  have hlow : r.LowercaseOids := Registry.lowercaseOids_of_numeric ho
  have hknown : ∀ ix ∈ s.indexes, ix.attr.isKnownAs name = true ↔
      r.resolve name = .ok ix.attr ∧ Text.PlainCapitals name.toList := fun ix hix => by
    have hattr := attr_mem hs.checked hix
    rw [Registry.isKnownAs_iff hr ho hattr, Registry.resolve_eq_ok_iff hr hlow, and_iff_right hattr]
    exact and_comm
  constructor
  · intro h
    have hix := List.mem_of_find?_eq_some h
    exact ⟨hix, (hknown ix hix).mp (by simpa using List.find?_some h)⟩
  · rintro ⟨hix, hname⟩
    cases hfind : s.indexFor? name with
    | none => exact absurd ((hknown ix hix).mpr hname) (List.find?_eq_none.mp hfind ix hix)
    | some ix' =>
      have hix' := List.mem_of_find?_eq_some hfind
      obtain ⟨hname', -⟩ := (hknown ix' hix').mp (by simpa using List.find?_some hfind)
      have hattr := Except.ok.inj (hname'.symm.trans hname.1)
      rw [List.inj_on_of_nodup_map hs.synced.distinct hix' hix (congrArg _ hattr)]

/-- **Looking an index up by name agrees with the schema on names without capitals other than A to
Z, and finds nothing under any other name.** What it finds under a name is the index on the type
that the name stands for, and it finds it if there is one. Names in ASCII are of this kind. -/
theorem indexFor?_agrees (hr : r.Built) (ho : r.NumericOids) (hs : s.Reachable r) (name : String) :
    (∀ ix, s.indexFor? name = some ix ↔
      ix ∈ s.indexes ∧ r.resolve name = .ok ix.attr ∧ Text.PlainCapitals name.toList) ∧
    (s.hasIndexOn name = true ↔
      (∃ ix ∈ s.indexes, r.resolve name = .ok ix.attr) ∧ Text.PlainCapitals name.toList) ∧
    ((∀ c ∈ name.toList, c.toNat < 0x80) → Text.PlainCapitals name.toList) := by
  refine ⟨fun ix => indexFor?_eq_some_iff hr ho hs, ?_, Text.plainCapitals_of_ascii⟩
  rw [hasIndexOn, Option.isSome_iff_exists]
  constructor
  · rintro ⟨ix, hfind⟩
    obtain ⟨hix, hres, hplain⟩ := (indexFor?_eq_some_iff hr ho hs).mp hfind
    exact ⟨⟨ix, hix, hres⟩, hplain⟩
  · rintro ⟨⟨ix, hix, hres⟩, hplain⟩
    exact ⟨ix, (indexFor?_eq_some_iff hr ho hs).mpr ⟨hix, hres, hplain⟩⟩

/-- Three capitals hide no index, but the fourth one does. -/
theorem indexFor?_agrees_accent :
    let s := (Store.new "world").performAll .countries [.addIndex "país" false]
    s.Reachable .countries ∧ s.hasIndexOn "PAíS" = true ∧ s.hasIndexOn "PAÍS" = false := by
  intro s
  have hs : s.Reachable .countries := (Store.Reachable.new "world").performAll _
  obtain ⟨-, hplain, -⟩ :=
    indexFor?_agrees Registry.built_countries Registry.numericOids_countries hs "PAíS"
  obtain ⟨-, haccent, -⟩ :=
    indexFor?_agrees Registry.built_countries Registry.numericOids_countries hs "PAÍS"
  refine ⟨hs, hplain.mpr ⟨by decide +kernel, by decide +kernel⟩, ?_⟩
  rw [Bool.eq_false_iff, ne_eq, haccent]
  exact fun h => absurd h.2 (by decide +kernel)

/-- A name that stands for a type with an index, and under which there is no index. -/
theorem exists_index_hidden_from_name :
    let s := (Store.new "world").performAll .countries [.addIndex "país" false]
    Registry.countries.Built ∧ Registry.countries.NumericOids ∧ s.Reachable .countries ∧
      Registry.countries.resolve "PAÍS" = .ok .country ∧
      s.indexes.map AttributeIndex.attr = [.country] ∧
      s.indexFor? "PAÍS" = none ∧ s.hasIndexOn "PAÍS" = false := by
  intro s
  have hs : s.Reachable .countries := (Store.Reachable.new "world").performAll _
  exact ⟨Registry.built_countries, Registry.numericOids_countries, hs, by decide +kernel,
    by decide +kernel, by decide +kernel, by decide +kernel⟩

end Store

end Directory
