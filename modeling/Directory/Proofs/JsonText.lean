import Directory.Json.Printer
import Directory.Json.Reader

/-!
# Reading what has been written

A plain tree is read back from its text (`Json.parse_print`). Plain trees have neither numbers that
are no integers nor strings without a text, which is all that documents are made of.

The text is first cut into tokens. A token ends where it should if nothing follows that could go on
with a number (`Boundary`), and tokens are written one behind the other so that this is always the
case (`Lexes`). Then the reader takes the tokens of a value, with any arrays and objects still open
around it, for this value (`run_tokens`).
-/

namespace Directory.Json

/-! ### Numbers -/

/-- The text does not start with anything that could go on with a number. -/
def Boundary (rest : List Char) : Prop :=
  ∀ c ∈ rest.head?, c.isDigit = false ∧ c ≠ '.' ∧ c ≠ 'e' ∧ c ≠ 'E'

variable {rest : List Char}

theorem scanDigits_append {ds : List Char} (hne : ds ≠ []) (hds : ∀ c ∈ ds, c.isDigit = true)
    (hrest : ∀ c ∈ rest.head?, c.isDigit = false) : scanDigits (ds ++ rest) = some (ds, rest) := by
  have hstop : rest.takeWhile Char.isDigit = [] ∧ rest.dropWhile Char.isDigit = rest := by
    cases rest with
    | nil => exact ⟨rfl, rfl⟩
    | cons c cs => simp [hrest c rfl]
  rw [scanDigits, List.takeWhile_append_of_pos hds, List.dropWhile_append_of_pos hds, hstop.1,
    hstop.2, List.append_nil]
  cases ds with
  | nil => exact absurd rfl hne
  | cons c cs => rfl

theorem scanFraction_of_boundary (hrest : Boundary rest) : scanFraction rest = some ([], rest) := by
  unfold scanFraction
  split
  · exact absurd rfl (hrest _ rfl).2.1
  · rfl

theorem scanExponent_of_boundary (hrest : Boundary rest) : scanExponent rest = some ([], rest) := by
  cases rest with
  | nil => rfl
  | cons c cs =>
    obtain ⟨-, -, hlower, hupper⟩ := hrest c rfl
    simp [scanExponent, hlower, hupper]

/-- Only zero is written with the digit 0 first. -/
theorem eq_zero_of_head_showNatural (n : Nat) (h : (Text.showNatural n).head? = some '0') :
    n = 0 := by
  induction n using Nat.strongRecOn with
  | _ n ih =>
    simp only [Text.showNatural] at h ih
    by_cases hn : n < 10
    · rw [Nat.toDigits_of_lt_base hn] at h
      exact Nat.digitChar_eq_zero.mp (Option.some.inj h)
    · rw [Nat.toDigits_of_base_le (by decide) (by omega), List.head?_append,
        Option.or_of_isSome (List.isSome_head?.mpr Nat.toDigits_ne_nil)] at h
      have := ih (n / 10) (by omega) h
      omega

theorem scanUnsigned_showNatural {negative : Bool} {n : Nat} (hn : negative = true → n ≠ 0)
    (hrest : Boundary rest) : scanUnsigned negative (Text.showNatural n ++ rest) =
      some (.integer (if negative then -(n : Int) else n), rest) := by
  have hne : Text.showNatural n ≠ [] := Nat.toDigits_ne_nil
  have hdigits : ∀ c ∈ Text.showNatural n, c.isDigit = true := fun c hc =>
    Nat.isDigit_of_mem_toDigits (by decide) (by decide) hc
  have hlead : ¬((Text.showNatural n).head? = some '0' ∧ Text.showNatural n ≠ ['0']) := by
    rintro ⟨hhead, hzero⟩
    obtain rfl := eq_zero_of_head_showNatural n hhead
    exact hzero rfl
  have hzero : ¬(negative = true ∧ Text.showNatural n = ['0']) := by
    rintro ⟨hneg, hshow⟩
    exact hn hneg (eq_zero_of_head_showNatural n (by rw [hshow]; rfl))
  have hvalue : Nat.ofDigitChars 10 (Text.showNatural n) 0 = n := Nat.ofDigitChars_ten_toDigits
  have hnumber : numberOf negative (Text.showNatural n) [] [] =
      .integer (if negative then -(n : Int) else n) := by
    rw [numberOf, if_pos ⟨rfl, rfl, hzero⟩, hvalue]
  have hscan := scanDigits_append hne hdigits fun c hc => (hrest c hc).1
  simp only [scanUnsigned, hscan, Option.bind_some, if_neg hlead, scanFraction_of_boundary hrest,
    scanExponent_of_boundary hrest, Option.map_some, hnumber]

theorem showNatural_cons (n : Nat) :
    ∃ d ds, Text.showNatural n = d :: ds ∧ d.isDigit = true := by
  cases hshow : Text.showNatural n with
  | nil => exact absurd hshow Nat.toDigits_ne_nil
  | cons d ds =>
    have hd : d ∈ Text.showNatural n := hshow ▸ List.mem_cons_self
    exact ⟨d, ds, rfl, Nat.isDigit_of_mem_toDigits (by decide) (by decide) hd⟩

theorem scanNumber_showInteger (n : Int) (hrest : Boundary rest) :
    scanNumber (Text.showInteger n ++ rest) = some (.integer n, rest) := by
  cases n with
  | negSucc n =>
    show scanUnsigned true (Text.showNatural (n + 1) ++ rest) = _
    exact scanUnsigned_showNatural (fun _ => Nat.succ_ne_zero n) hrest
  | ofNat n =>
    have hscan : scanNumber (Text.showNatural n ++ rest) =
        scanUnsigned false (Text.showNatural n ++ rest) := by
      obtain ⟨d, ds, hshow, hd⟩ := showNatural_cons n
      rw [hshow, scanNumber.eq_def]
      split
      · next heq =>
        rw [(List.cons.inj heq).1] at hd
        cases hd
      · rfl
    rw [Text.showInteger, hscan]
    exact scanUnsigned_showNatural (fun h => nomatch h) hrest

/-! ### Strings -/

theorem hexDigit?_digitChar : ∀ d < 16, hexDigit? (Nat.digitChar d) = some d := by decide

/-- How a character is written: with a short escape, as a code unit, or as it is. -/
theorem renderChar_cases (c : Char) :
    (∃ e, e ≠ 'u' ∧ shortEscape? e = some c ∧ renderChar c = ['\\', e]) ∨
      (c.toNat < 0x20 ∧ renderChar c =
        ['\\', 'u', '0', '0', Nat.digitChar (c.toNat / 16), Nat.digitChar (c.toNat % 16)]) ∨
      (c ≠ '"' ∧ c ≠ '\\' ∧ ¬c.toNat < 0x20 ∧ renderChar c = [c]) := by
  unfold renderChar
  split
  · next h => exact .inl ⟨'"', by decide, congrArg some h.symm, rfl⟩
  · next hquote =>
    split
    · next h => exact .inl ⟨'\\', by decide, congrArg some h.symm, rfl⟩
    · next hescape =>
      split
      · next h => exact .inl ⟨'b', by decide, congrArg some h.symm, rfl⟩
      split
      · next h => exact .inl ⟨'f', by decide, congrArg some h.symm, rfl⟩
      split
      · next h => exact .inl ⟨'n', by decide, congrArg some h.symm, rfl⟩
      split
      · next h => exact .inl ⟨'r', by decide, congrArg some h.symm, rfl⟩
      split
      · next h => exact .inl ⟨'t', by decide, congrArg some h.symm, rfl⟩
      split
      · next h => exact .inr (.inl ⟨h, rfl⟩)
      · next h => exact .inr (.inr ⟨hquote, hescape, h, rfl⟩)

theorem scanString_escape {e c : Char} (he : e ≠ 'u') (hc : shortEscape? e = some c)
    (cs : List Char) : scanString ('\\' :: e :: cs) =
      (scanString cs).map fun read => (.char c :: read.1, read.2) := by
  rw [scanString.eq_def]
  cases hrest : scanString cs <;> simp [he, hc, hrest]

theorem scanString_char {c : Char} (hquote : c ≠ '"') (hescape : c ≠ '\\') (hc : ¬c.toNat < 0x20)
    (cs : List Char) : scanString (c :: cs) =
      (scanString cs).map fun read => (.char c :: read.1, read.2) := by
  rw [scanString.eq_def]
  cases hrest : scanString cs <;> simp [hescape, hc, hrest]

/-- A character is read as a piece that stands for it. -/
theorem scanString_renderChar (c : Char) (cs : List Char) :
    ∃ p, scanString (renderChar c ++ cs) =
        (scanString cs).map (fun read => (p :: read.1, read.2)) ∧
      ∀ ps, textOf? (p :: ps) = (textOf? ps).map (c :: ·) := by
  rcases renderChar_cases c with ⟨e, he, hc, hrender⟩ | ⟨hc, hrender⟩ | ⟨h₁, h₂, h₃, hrender⟩
  · rw [hrender]
    exact ⟨.char c, scanString_escape he hc cs, fun _ => rfl⟩
  · have hhigh := hexDigit?_digitChar (c.toNat / 16) (by omega)
    have hlow := hexDigit?_digitChar (c.toNat % 16) (by omega)
    have hzero : hexDigit? '0' = some 0 := by decide
    have hunit : hexUnit? '0' '0' (Nat.digitChar (c.toNat / 16)) (Nat.digitChar (c.toNat % 16)) =
        some c.toNat := by
      simp only [hexUnit?, hzero, hhigh, hlow, bind, Option.bind_some, pure]
      congr 1
      omega
    have hsurrogate : isHighSurrogate c.toNat = false ∧ isLowSurrogate c.toNat = false := by
      simp only [isHighSurrogate, isLowSurrogate, Bool.and_eq_false_iff, decide_eq_false_iff_not]
      omega
    rw [hrender]
    refine ⟨.unit c.toNat, ?_, fun ps => ?_⟩
    · cases hrest : scanString cs <;> simp [scanString, hunit, hrest]
    · rw [textOf?.eq_def]
      simp [hsurrogate, Char.ofNat_toNat]
  · rw [hrender]
    exact ⟨.char c, scanString_char h₁ h₂ h₃ cs, fun _ => rfl⟩

/-- The characters of a string are read from behind its opening quote. -/
theorem scanString_renderString (cs rest : List Char) :
    ∃ ps, scanString (cs.flatMap renderChar ++ '"' :: rest) = some (ps, rest) ∧
      textOf? ps = some cs := by
  induction cs with
  | nil => exact ⟨[], rfl, rfl⟩
  | cons c cs ih =>
    obtain ⟨ps, hscan, htext⟩ := ih
    obtain ⟨p, hp, hpiece⟩ := scanString_renderChar c (cs.flatMap renderChar ++ '"' :: rest)
    refine ⟨p :: ps, ?_, by rw [hpiece, htext]; rfl⟩
    rw [List.flatMap_cons, List.append_assoc, hp, hscan]
    rfl

/-! ### Tokens -/

/-- The trees that documents are made of. -/
inductive Plain : Json → Prop where
  | null : Plain .null
  | bool (b : Bool) : Plain (.bool b)
  | integer (n : Int) : Plain (.integer n)
  | text (s : String) : Plain (.text s)
  | array {items : List Json} : (∀ j ∈ items, Plain j) → Plain (.array items)
  | record {members : List (String × Json)} : (∀ m ∈ members, Plain m.2) → Plain (.record members)

/-- The token stands for itself alone. -/
def Token.IsMark (t : Token) : Prop := ∀ j, t ≠ .atom j

theorem scanToken_number {c : Char} (hc : c = '-' ∨ c.isDigit = true) (cs : List Char) :
    isSpace c = false ∧
      scanToken c cs = (scanNumber (c :: cs)).map fun read => (.atom read.1, read.2) := by
  have hne : ∀ d, d ≠ '-' → d.isDigit = false → c ≠ d := by
    rintro d hminus hdigit rfl
    rcases hc with hc | hc
    · exact hminus hc
    · simp [hdigit] at hc
  constructor
  · simp [isSpace, hne]
  · rw [scanToken.eq_def]
    split <;> first | rfl | exact absurd rfl (hne _ (by decide) (by decide))

theorem showInteger_cons (n : Int) :
    ∃ c cs, Text.showInteger n = c :: cs ∧ (c = '-' ∨ c.isDigit = true) := by
  cases n with
  | ofNat n =>
    obtain ⟨d, ds, hshow, hd⟩ := showNatural_cons n
    exact ⟨d, ds, hshow, .inr hd⟩
  | negSucc n => exact ⟨'-', _, rfl, .inl rfl⟩

/-- A token is cut off at its end if nothing follows that could belong to it. -/
theorem lex_of_scanToken {c : Char} {cs rest : List Char} {t : Token} (hc : isSpace c = false)
    (h : scanToken c cs = some (t, rest)) : lex (c :: cs) = (lex rest).map (t :: ·) := by
  rw [lex, if_neg (by simp [hc])]
  split <;> rename_i heq
  · cases h.symm.trans heq
    rfl
  · cases h.symm.trans heq

theorem lex_mark {t : Token} (ht : t.IsMark) (rest : List Char) :
    lex (t.render ++ rest) = (lex rest).map (t :: ·) := by
  cases t with
  | atom j => exact absurd rfl (ht j)
  | _ => exact lex_of_scanToken (by decide) rfl

theorem lex_atom {j : Json} (hj : j.Plain) (hatom : j.tokens = [.atom j]) (hrest : Boundary rest) :
    lex ((Token.atom j).render ++ rest) = (lex rest).map (.atom j :: ·) := by
  cases hj with
  | null => exact lex_of_scanToken (by decide) rfl
  | bool b => cases b <;> exact lex_of_scanToken (by decide) rfl
  | integer n =>
    obtain ⟨c, cs, hshow, hc⟩ := showInteger_cons n
    have hrender : (Token.atom (.integer n)).render ++ rest = c :: (cs ++ rest) :=
      congrArg (· ++ rest) hshow
    obtain ⟨hspace, hscan⟩ := scanToken_number hc (cs ++ rest)
    rw [hrender]
    refine lex_of_scanToken hspace (hscan.trans ?_)
    rw [← List.cons_append, ← hshow, scanNumber_showInteger n hrest]
    rfl
  | text s =>
    obtain ⟨ps, hscan, htext⟩ := scanString_renderString s.toList rest
    have hrender : (Token.atom (.text s)).render ++ rest =
        ('"' :: (s.toList.flatMap renderChar ++ ['"'])) ++ rest := rfl
    rw [hrender, List.cons_append, List.append_assoc]
    refine lex_of_scanToken (by decide) ?_
    show (scanString (s.toList.flatMap renderChar ++ '"' :: rest)).map _ = _
    rw [hscan]
    simp [htext, text]
  | array => cases hatom
  | record => cases hatom

/-! ### Token lists -/

/-- The text of the tokens is cut into the same tokens again, in front of whatever cannot go on with
a number. -/
def Lexes (ts : List Token) : Prop :=
  ∀ rest, Boundary rest → lex (ts.flatMap Token.render ++ rest) = (lex rest).map (ts ++ ·)

/-- No token follows, or one that stands for itself. -/
def StartsWithMark (ts : List Token) : Prop := ∀ t ∈ ts.head?, t.IsMark

variable {t : Token} {ts us : List Token}

theorem StartsWithMark.boundary (h : StartsWithMark ts) (hrest : Boundary rest) :
    Boundary (ts.flatMap Token.render ++ rest) := by
  cases ts with
  | nil => exact hrest
  | cons t ts =>
    cases t with
    | atom j => exact absurd rfl (h _ rfl j)
    | _ =>
      intro c hc
      cases hc
      decide

theorem lexes_nil : Lexes [] := fun rest _ => by simp

theorem Lexes.mark_cons (h : Lexes ts) (ht : t.IsMark) : Lexes (t :: ts) := by
  intro rest hrest
  rw [List.flatMap_cons, List.append_assoc, lex_mark ht, h rest hrest, Option.map_map]
  rfl

theorem Lexes.atom_cons {j : Json} (h : Lexes ts) (hj : j.Plain) (hatom : j.tokens = [.atom j])
    (hts : StartsWithMark ts) : Lexes (.atom j :: ts) := by
  intro rest hrest
  rw [List.flatMap_cons, List.append_assoc, lex_atom hj hatom (hts.boundary hrest), h rest hrest,
    Option.map_map]
  rfl

theorem Lexes.append (h : Lexes ts) (h' : Lexes us) (hus : StartsWithMark us) :
    Lexes (ts ++ us) := by
  intro rest hrest
  rw [List.flatMap_append, List.append_assoc, h _ (hus.boundary hrest), h' rest hrest,
    Option.map_map]
  congr 1
  exact funext fun vs => (List.append_assoc ts us vs).symm

theorem lexes_moreItemTokens {js : List Json} (h : ∀ j ∈ js, Lexes j.tokens) :
    Lexes (moreItemTokens js) ∧ StartsWithMark (moreItemTokens js) := by
  induction js with
  | nil => exact ⟨lexes_nil, fun t ht => nomatch ht⟩
  | cons j js ih =>
    obtain ⟨hj, hjs⟩ := List.forall_mem_cons.mp h
    obtain ⟨hmore, hmark⟩ := ih hjs
    exact ⟨(hj.append hmore hmark).mark_cons nofun, fun t ht => by cases ht; exact nofun⟩

/-- The tokens of a member with the text of its key. -/
theorem lexes_member {key : String} {j : Json} (hj : Lexes j.tokens) (hts : Lexes ts)
    (hmark : StartsWithMark ts) :
    Lexes (.atom (.string (some key)) :: .colon :: (j.tokens ++ ts)) :=
  ((hj.append hts hmark).mark_cons (t := .colon) nofun).atom_cons (.text key) rfl
    fun t ht => by cases ht; exact nofun

theorem lexes_moreMemberTokens {ms : List (String × Json)} (h : ∀ m ∈ ms, Lexes m.2.tokens) :
    Lexes (moreMemberTokens (ms.map fun m => (some m.1, m.2))) ∧
      StartsWithMark (moreMemberTokens (ms.map fun m => (some m.1, m.2))) := by
  induction ms with
  | nil => exact ⟨lexes_nil, fun t ht => nomatch ht⟩
  | cons m ms ih =>
    obtain ⟨hm, hms⟩ := List.forall_mem_cons.mp h
    obtain ⟨hmore, hmark⟩ := ih hms
    exact ⟨(lexes_member hm hmore hmark).mark_cons nofun, fun t ht => by cases ht; exact nofun⟩

/-- The text of a plain tree is cut into the tokens of the tree. -/
theorem Plain.lexes {j : Json} (h : j.Plain) : Lexes j.tokens := by
  have hend : ∀ t : Token, t.IsMark → Lexes [t] ∧ StartsWithMark [t] := fun t ht =>
    ⟨lexes_nil.mark_cons ht, fun u hu => by cases hu; exact ht⟩
  have hatom : ∀ j : Json, j.Plain → j.tokens = [.atom j] → Lexes j.tokens := fun j hj htokens => by
    rw [htokens]
    exact lexes_nil.atom_cons hj htokens fun t ht => nomatch ht
  induction h with
  | null => exact hatom _ .null rfl
  | bool b => exact hatom _ (.bool b) rfl
  | integer n => exact hatom _ (.integer n) rfl
  | text s => exact hatom _ (.text s) rfl
  | @array items _ ih =>
    obtain ⟨hclose, hmark⟩ := hend .closeArray nofun
    cases items with
    | nil => exact hclose.mark_cons nofun
    | cons j js =>
      obtain ⟨hj, hjs⟩ := List.forall_mem_cons.mp ih
      obtain ⟨hmore, hcomma⟩ := lexes_moreItemTokens hjs
      exact ((hj.append hmore hcomma).append hclose hmark).mark_cons nofun
  | @record members _ ih =>
    obtain ⟨hclose, hmark⟩ := hend .closeObject nofun
    cases members with
    | nil => exact hclose.mark_cons nofun
    | cons m ms =>
      obtain ⟨hm, hms⟩ := List.forall_mem_cons.mp ih
      obtain ⟨hmore, hcomma⟩ := lexes_moreMemberTokens hms
      exact ((lexes_member hm hmore hcomma).append hclose hmark).mark_cons nofun

/-! ### Trees -/

section Reading

variable {j : Json} {stack : List Frame}

/-- The reader takes the tokens of the tree for the tree, whatever is still open around it. -/
def Reads (j : Json) : Prop :=
  ∀ stack ts, run ⟨.value, stack⟩ (j.tokens ++ ts) = run ⟨.afterValue j, stack⟩ ts

/-- The first item of an array is a value like any other. -/
theorem run_firstItem (j : Json) (stack : List Frame) (ts : List Token) :
    run ⟨.firstItem, stack⟩ (j.tokens ++ ts) = run ⟨.value, stack⟩ (j.tokens ++ ts) := by
  cases j <;> rfl

/-- The items that follow another one, and the end of their array. -/
theorem run_moreItems {js : List Json} (h : ∀ j ∈ js, Reads j) (j : Json) (items : List Json) :
    run ⟨.afterValue j, .array items :: stack⟩ (moreItemTokens js ++ .closeArray :: ts) =
      run ⟨.afterValue (.array (items.reverse ++ j :: js)), stack⟩ ts := by
  induction js generalizing j items with
  | nil =>
    show run ⟨.afterValue (.array (j :: items).reverse), stack⟩ ts = _
    rw [List.reverse_cons]
  | cons k js ih =>
    obtain ⟨hk, hjs⟩ := List.forall_mem_cons.mp h
    show run ⟨.value, .array (j :: items) :: stack⟩
      ((k.tokens ++ moreItemTokens js) ++ .closeArray :: ts) = _
    rw [List.append_assoc, hk, ih hjs k (j :: items), List.reverse_cons, List.append_assoc]
    rfl

/-- The members that follow another one, and the end of their object. -/
theorem run_moreMembers {ms : List (String × Json)} (h : ∀ m ∈ ms, Reads m.2) (j : Json)
    (members : List (Option String × Json)) (key : Option String) :
    run ⟨.afterValue j, .object members key :: stack⟩
        (moreMemberTokens (ms.map fun m => (some m.1, m.2)) ++ .closeObject :: ts) =
      run ⟨.afterValue (.object (members.reverse ++ (key, j) ::
        ms.map fun m => (some m.1, m.2))), stack⟩ ts := by
  induction ms generalizing j members key with
  | nil =>
    show run ⟨.afterValue (.object ((key, j) :: members).reverse), stack⟩ ts = _
    rw [List.reverse_cons]
    rfl
  | cons m ms ih =>
    obtain ⟨hm, hms⟩ := List.forall_mem_cons.mp h
    show run ⟨.value, .object ((key, j) :: members) (some m.1) :: stack⟩
      ((m.2.tokens ++ moreMemberTokens (ms.map fun m => (some m.1, m.2))) ++
        .closeObject :: ts) = _
    rw [List.append_assoc, hm, ih hms, List.reverse_cons, List.append_assoc]
    rfl

theorem Plain.reads (h : j.Plain) : j.Reads := by
  induction h with
  | null => exact fun _ _ => rfl
  | bool b => exact fun _ _ => rfl
  | integer n => exact fun _ _ => rfl
  | text s => exact fun _ _ => rfl
  | @array items _ ih =>
    intro stack ts
    cases items with
    | nil => rfl
    | cons j js =>
      obtain ⟨hj, hjs⟩ := List.forall_mem_cons.mp ih
      show run ⟨.firstItem, .array [] :: stack⟩
        (((j.tokens ++ moreItemTokens js) ++ [.closeArray]) ++ ts) = _
      rw [List.append_assoc, List.append_assoc, run_firstItem, hj]
      exact run_moreItems hjs j []
  | @record members _ ih =>
    intro stack ts
    cases members with
    | nil => rfl
    | cons m ms =>
      obtain ⟨hm, hms⟩ := List.forall_mem_cons.mp ih
      show run ⟨.value, .object [] (some m.1) :: stack⟩
        (((m.2.tokens ++ moreMemberTokens (ms.map fun m => (some m.1, m.2))) ++
          [.closeObject]) ++ ts) = _
      rw [List.append_assoc, List.append_assoc, hm]
      exact run_moreMembers hms m.2 [] (some m.1)

/-- **A plain tree is read back from its text.** -/
theorem parse_print (h : j.Plain) : parse j.print = some j := by
  have hlex : lex j.render = some j.tokens := by
    have hall := h.lexes [] fun c hc => nomatch hc
    simpa [lex, render] using hall
  have hrun : run ⟨.value, []⟩ j.tokens = some ⟨.afterValue j, []⟩ := by
    have hall := h.reads [] []
    rwa [List.append_nil] at hall
  rw [parse, print, String.toList_ofList, hlex]
  simp [ofTokens?, hrun]

end Reading

end Directory.Json
