import Directory.Proofs.JsonText

/-!
# JSON texts inside others

A JSON text can be written in the place of a value in another one, and is then read as this value
(`parse_member`). For the tokens this needs a look at what follows: a number would go on with a
digit, a point or an exponent (`Boundary`), while all other tokens end by themselves
(`lex_append`). The reader does not look at the arrays and objects that are open around a value
(`run_below`).
-/

namespace Directory.Json

variable {cs ds us rest : List Char}

/-! ### Tokens in front of other text -/

theorem scanString_append {ps : List Piece} (h : scanString cs = some (ps, rest))
    (us : List Char) : scanString (cs ++ us) = some (ps, rest ++ us) := by
  fun_induction scanString cs generalizing ps rest with
  | case1 => simp_all [scanString]
  | case2 a b c d cs ih =>
    simp only [bind, Option.bind_eq_some_iff, pure, Option.some.injEq, Prod.mk.injEq] at h
    obtain ⟨n, hn, ⟨qs, r⟩, hscan, rfl, rfl⟩ := h
    simp [scanString, hn, ih hscan]
  | case3 e cs hu ih =>
    simp only [bind, Option.bind_eq_some_iff, pure, Option.some.injEq, Prod.mk.injEq] at h
    obtain ⟨c, hc, ⟨qs, r⟩, hscan, rfl, rfl⟩ := h
    have he : e ≠ 'u' := by
      rintro rfl
      cases hc
    rw [List.cons_append, List.cons_append, scanString_escape he hc, ih hscan]
    rfl
  | case4 => simp at h
  | case5 c cs hquote _ _ hplain ih =>
    simp only [bind, Option.bind_eq_some_iff, pure, Option.some.injEq, Prod.mk.injEq] at h
    obtain ⟨⟨qs, r⟩, hscan, rfl, rfl⟩ := h
    obtain ⟨hcontrol, hback⟩ := not_or.mp hplain
    rw [List.cons_append, scanString_char hquote hback hcontrol, ih hscan]
    rfl
  | case6 => simp at h

theorem scanDigits_cases (h : scanDigits cs = some (ds, rest)) :
    cs = ds ++ rest ∧ ds ≠ [] ∧ (∀ c ∈ ds, c.isDigit = true) ∧
      ∀ c ∈ rest.head?, c.isDigit = false := by
  rw [scanDigits] at h
  split at h
  · cases h
  · next hne =>
    obtain ⟨rfl, rfl⟩ := Prod.mk.inj (Option.some.inj h)
    refine ⟨List.takeWhile_append_dropWhile.symm, hne, ?_, fun c hc => ?_⟩
    · exact List.all_eq_true.mp List.all_takeWhile
    · have hstop := List.head?_dropWhile_not Char.isDigit cs
      rwa [Option.mem_def.mp hc] at hstop

/-- Digits end where they did before, or in front of the other text. -/
theorem scanDigits_append_of_boundary (h : scanDigits cs = some (ds, rest)) (hus : Boundary us) :
    scanDigits (cs ++ us) = some (ds, rest ++ us) := by
  obtain ⟨rfl, hne, hds, hstop⟩ := scanDigits_cases h
  rw [List.append_assoc]
  refine scanDigits_append hne hds fun c hc => ?_
  cases rest with
  | nil => exact (hus c hc).1
  | cons d rest => exact hstop c hc

theorem scanFraction_append (h : scanFraction cs = some (ds, rest)) (hus : Boundary us) :
    scanFraction (cs ++ us) = some (ds, rest ++ us) := by
  unfold scanFraction at h
  split at h
  · next cs =>
    obtain ⟨⟨ds', rest'⟩, hscan, heq⟩ := Option.map_eq_some_iff.mp h
    obtain ⟨rfl, rfl⟩ := Prod.mk.inj heq
    simp [scanFraction, scanDigits_append_of_boundary hscan hus]
  · next hpoint =>
    obtain ⟨rfl, rfl⟩ := Prod.mk.inj (Option.some.inj h)
    cases cs with
    | nil => exact scanFraction_of_boundary hus
    | cons c cs =>
      unfold scanFraction
      split
      · next heq => exact absurd (by rw [(List.cons.inj heq).1]) (hpoint cs)
      · rfl

theorem scanExponent_append (h : scanExponent cs = some (ds, rest)) (hus : Boundary us) :
    scanExponent (cs ++ us) = some (ds, rest ++ us) := by
  cases cs with
  | nil =>
    obtain ⟨rfl, rfl⟩ := Prod.mk.inj (Option.some.inj h)
    exact scanExponent_of_boundary hus
  | cons e cs =>
    rw [scanExponent.eq_def] at h ⊢
    dsimp only [List.cons_append] at h ⊢
    split at h
    · next he =>
      rw [if_pos he]
      cases cs with
      | nil => cases h
      | cons c cs =>
        dsimp only [List.cons_append] at h ⊢
        split at h
        · next hsign =>
          obtain ⟨⟨ds', rest'⟩, hscan, heq⟩ := Option.map_eq_some_iff.mp h
          obtain ⟨rfl, rfl⟩ := Prod.mk.inj heq
          rw [if_pos hsign, scanDigits_append_of_boundary hscan hus]
          rfl
        · next hsign =>
          obtain ⟨⟨ds', rest'⟩, hscan, heq⟩ := Option.map_eq_some_iff.mp h
          obtain ⟨rfl, rfl⟩ := Prod.mk.inj heq
          rw [if_neg hsign, ← List.cons_append, scanDigits_append_of_boundary hscan hus]
          rfl
    · next he =>
      obtain ⟨rfl, rfl⟩ := Prod.mk.inj (Option.some.inj h)
      rw [if_neg he]
      rfl

theorem scanUnsigned_append {negative : Bool} {j : Json}
    (h : scanUnsigned negative cs = some (j, rest)) (hus : Boundary us) :
    scanUnsigned negative (cs ++ us) = some (j, rest ++ us) := by
  obtain ⟨⟨whole, r₁⟩, hwhole, h⟩ := Option.bind_eq_some_iff.mp h
  rw [scanUnsigned, scanDigits_append_of_boundary hwhole hus, Option.bind_some]
  dsimp only at h ⊢
  split at h
  · cases h
  · next hzero =>
    obtain ⟨⟨fraction, r₂⟩, hfraction, h⟩ := Option.bind_eq_some_iff.mp h
    obtain ⟨⟨exponent, r₃⟩, hexponent, h⟩ := Option.map_eq_some_iff.mp h
    obtain ⟨rfl, rfl⟩ := Prod.mk.inj h
    rw [if_neg hzero, scanFraction_append hfraction hus, Option.bind_some,
      scanExponent_append hexponent hus]
    rfl

theorem scanNumber_append {j : Json} (h : scanNumber cs = some (j, rest)) (hus : Boundary us) :
    scanNumber (cs ++ us) = some (j, rest ++ us) := by
  unfold scanNumber at h
  split at h
  · exact scanUnsigned_append h hus
  · next hsign =>
    have hscan := scanUnsigned_append h hus
    unfold scanNumber
    split
    · next heq =>
      cases cs with
      | nil => cases h
      | cons c cs => exact absurd (by rw [(List.cons.inj heq).1]) (hsign cs)
    · exact hscan

/-- A number begins with its sign or with a digit. -/
theorem head_of_scanNumber {c : Char} {read : Json × List Char}
    (h : scanNumber (c :: cs) = some read) : c = '-' ∨ c.isDigit = true := by
  unfold scanNumber at h
  split at h
  · next heq => exact .inl (List.cons.inj heq).1
  · cases hc : c.isDigit with
    | true => exact .inr rfl
    | false => simp [scanUnsigned, scanDigits, hc] at h

theorem scanToken_append {c : Char} {t : Token} (h : scanToken c cs = some (t, rest))
    (hus : Boundary us) : scanToken c (cs ++ us) = some (t, rest ++ us) := by
  unfold scanToken at h
  split at h
  case h_10 =>
    obtain ⟨⟨pieces, rest'⟩, hscan, heq⟩ := Option.map_eq_some_iff.mp h
    obtain ⟨rfl, rfl⟩ := Prod.mk.inj heq
    show (scanString (_ ++ us)).map _ = _
    rw [scanString_append hscan]
    rfl
  case h_11 =>
    obtain ⟨⟨j, rest'⟩, hscan, heq⟩ := Option.map_eq_some_iff.mp h
    obtain ⟨rfl, rfl⟩ := Prod.mk.inj heq
    have hnumber := scanNumber_append hscan hus
    rw [List.cons_append] at hnumber
    rw [(scanToken_number (head_of_scanNumber hscan) (cs ++ us)).2, hnumber]
    rfl
  all_goals
    obtain ⟨rfl, rfl⟩ := Prod.mk.inj (Option.some.inj h)
    rfl

/-- A text in front of another one is cut into the same tokens as alone. -/
theorem lex_append {ts : List Token} (h : lex cs = some ts) (hus : Boundary us) :
    lex (cs ++ us) = (lex us).map (ts ++ ·) := by
  induction cs using lex.induct generalizing ts with
  | case1 =>
    rw [lex] at h
    cases h
    simp
  | case2 c cs hspace ih =>
    rw [lex, if_pos hspace] at h
    rw [List.cons_append, lex, if_pos hspace]
    exact ih h
  | case3 c cs hspace t rest hscan ih =>
    rw [lex_of_scanToken (Bool.eq_false_iff.mpr hspace) hscan] at h
    obtain ⟨ts', hrest, rfl⟩ := Option.map_eq_some_iff.mp h
    rw [List.cons_append, lex_of_scanToken (Bool.eq_false_iff.mpr hspace)
      (scanToken_append hscan hus), ih hrest, Option.map_map]
    rfl
  | case4 c cs hspace hscan =>
    rw [lex, if_neg hspace] at h
    split at h
    · next heq => cases hscan.symm.trans heq
    · cases h

/-! ### Values inside arrays and objects -/

variable {s s' : State} {t : Token} {ts : List Token} {j : Json} {stack : List Frame}

theorem stepValue_below (h : stepValue t stack = some s') (below : List Frame) :
    stepValue t (stack ++ below) = some ⟨s'.expect, s'.stack ++ below⟩ := by
  cases t <;> cases h <;> rfl

theorem stepKey_below {members : List (Option String × Json)}
    (h : stepKey t members stack = some s') (below : List Frame) :
    stepKey t members (stack ++ below) = some ⟨s'.expect, s'.stack ++ below⟩ := by
  unfold stepKey at h ⊢
  split at h <;> cases h
  rfl

theorem stepAfter_below (h : stepAfter t j stack = some s') (below : List Frame) :
    stepAfter t j (stack ++ below) = some ⟨s'.expect, s'.stack ++ below⟩ := by
  unfold stepAfter at h
  split at h <;> cases h <;> rfl

theorem step_firstItem (ht : t ≠ .closeArray) (stack : List Frame) :
    step ⟨.firstItem, stack⟩ t = stepValue t stack := by
  cases t <;> first | rfl | exact absurd rfl ht

theorem step_firstKey (ht : t ≠ .closeObject) (stack : List Frame) :
    step ⟨.firstKey, stack⟩ t = stepKey t [] stack := by
  cases t <;> first | rfl | exact absurd rfl ht

/-- What is open around a value does not matter to a token of it. -/
theorem step_below (h : step s t = some s') (below : List Frame) :
    step ⟨s.expect, s.stack ++ below⟩ t = some ⟨s'.expect, s'.stack ++ below⟩ := by
  obtain ⟨expect, stack⟩ := s
  cases expect with
  | value => exact stepValue_below h below
  | firstItem =>
    by_cases ht : t = .closeArray
    · subst ht
      rcases stack with _ | ⟨_ | _, stack⟩ <;> cases h
      rfl
    · rw [step_firstItem ht] at h ⊢
      exact stepValue_below h below
  | firstKey =>
    by_cases ht : t = .closeObject
    · subst ht
      cases h
      rfl
    · rw [step_firstKey ht] at h ⊢
      exact stepKey_below h below
  | key members => exact stepKey_below h below
  | colon members key =>
    cases t <;> cases h
    rfl
  | afterValue j => exact stepAfter_below h below

theorem run_below (h : run s ts = some s') (below : List Frame) :
    run ⟨s.expect, s.stack ++ below⟩ ts = some ⟨s'.expect, s'.stack ++ below⟩ := by
  induction ts generalizing s with
  | nil =>
    cases h
    rfl
  | cons t ts ih =>
    obtain ⟨u, hstep, hrun⟩ := Option.bind_eq_some_iff.mp h
    rw [run, step_below hstep, Option.bind_some]
    exact ih hrun

theorem ofTokens?_eq_some_iff :
    ofTokens? ts = some j ↔ run ⟨.value, []⟩ ts = some ⟨.afterValue j, []⟩ := by
  rw [ofTokens?]
  constructor
  · intro h
    split at h
    · next heq => rw [heq, Option.some.inj h]
    · cases h
  · intro h
    rw [h]

/-- **A text inside another one.** What is read from a JSON text is read from it as well where it
stands as the value of a member. -/
theorem parse_member {source : String} (h : parse source = some j) (key : String) :
    parse (String.ofList ('\x7b' :: (renderString (some key) ++
      ':' :: ' ' :: (source.toList ++ ['\x7d'])))) = some (record [(key, j)]) := by
  obtain ⟨ts, hlex, htokens⟩ := Option.bind_eq_some_iff.mp h
  have hstart : ∀ cs, lex ('\x7b' :: (renderString (some key) ++ ':' :: ' ' :: cs)) =
      (lex cs).map (.openObject :: .atom (.string (some key)) :: .colon :: ·) := by
    intro cs
    have hspace : lex (' ' :: cs) = lex cs := by rw [lex, if_pos (by decide)]
    have hcolon : lex (':' :: ' ' :: cs) = (lex cs).map (.colon :: ·) := by
      rw [← hspace]
      exact lex_of_scanToken (by decide) rfl
    have hboundary : Boundary (':' :: ' ' :: cs) := by
      rintro c ⟨⟩
      decide
    have hkey : lex (renderString (some key) ++ ':' :: ' ' :: cs) =
        (lex (':' :: ' ' :: cs)).map (.atom (.string (some key)) :: ·) :=
      lex_atom (.text key) rfl hboundary
    rw [lex_of_scanToken (by decide) rfl, hkey, hcolon, Option.map_map, Option.map_map]
    rfl
  have hend : lex ['\x7d'] = some [.closeObject] := by
    rw [lex_of_scanToken (by decide) rfl, lex]
    rfl
  have hvalue : lex (source.toList ++ ['\x7d']) = some (ts ++ [.closeObject]) := by
    rw [lex_append hlex (by rintro c ⟨⟩; decide), hend]
    rfl
  -- the reader takes the tokens of the text with the object open below them
  have hrun : run ⟨.value, [.object [] (some key)]⟩ ts =
      some ⟨.afterValue j, [.object [] (some key)]⟩ :=
    run_below (ofTokens?_eq_some_iff.mp htokens) _
  rw [parse, String.toList_ofList, hstart, hvalue, Option.map_some, Option.bind_some,
    ofTokens?_eq_some_iff]
  show run ⟨.value, [.object [] (some key)]⟩ (ts ++ [.closeObject]) = _
  rw [run_append, hrun]
  rfl

end Directory.Json
