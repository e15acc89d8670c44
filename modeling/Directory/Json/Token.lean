import Directory.Json.Basic
import Directory.Text.Integer

/-!
# JSON tokens

The tokens of a JSON text: punctuation, and atoms, which are values without parts. `lex` cuts a
text into tokens and `Token.render` writes one. Between tokens there may be spaces, tabs and line
ends; inside a string control characters have to be escaped.
-/

namespace Directory.Json

/-- A token of a JSON text. -/
inductive Token where
  | openArray
  | closeArray
  | openObject
  | closeObject
  | comma
  | colon
  /-- A value without parts. -/
  | atom (value : Json)
  deriving Repr, Inhabited

/-! ### Strings -/

/-- A piece of a string: a character, or a UTF-16 code unit that was escaped by its number. -/
inductive Piece where
  | char (c : Char)
  | unit (n : Nat)
  deriving DecidableEq, Repr

/-- The value of a hexadecimal digit. -/
def hexDigit? (c : Char) : Option Nat :=
  if '0' ≤ c ∧ c ≤ '9' then some (c.toNat - '0'.toNat)
  else if 'a' ≤ c ∧ c ≤ 'f' then some (c.toNat - 'a'.toNat + 10)
  else if 'A' ≤ c ∧ c ≤ 'F' then some (c.toNat - 'A'.toNat + 10)
  else none

/-- The value of four hexadecimal digits. -/
def hexUnit? (a b c d : Char) : Option Nat := do
  return (((← hexDigit? a) * 16 + (← hexDigit? b)) * 16 + (← hexDigit? c)) * 16 + (← hexDigit? d)

/-- The character that a backslash and this letter stand for. -/
def shortEscape? : Char → Option Char
  | '"' => some '"'
  | '\\' => some '\\'
  | '/' => some '/'
  | 'b' => some '\x08'
  | 'f' => some '\x0c'
  | 'n' => some '\n'
  | 'r' => some '\r'
  | 't' => some '\t'
  | _ => none

/-- Read a string from behind its opening quote: its pieces, and what follows the closing quote. -/
def scanString : List Char → Option (List Piece × List Char)
  | '"' :: rest => some ([], rest)
  | '\\' :: 'u' :: a :: b :: c :: d :: rest => do
    let n ← hexUnit? a b c d
    let (pieces, rest) ← scanString rest
    return (.unit n :: pieces, rest)
  | '\\' :: e :: rest => do
    let c ← shortEscape? e
    let (pieces, rest) ← scanString rest
    return (.char c :: pieces, rest)
  | c :: rest =>
    if c.toNat < 0x20 ∨ c = '\\' then none
    else do
      let (pieces, rest) ← scanString rest
      return (.char c :: pieces, rest)
  | [] => none

/-- The code unit is the first half of a surrogate pair. -/
def isHighSurrogate (n : Nat) : Bool := decide (0xD800 ≤ n) && decide (n < 0xDC00)

/-- The code unit is the second half of a surrogate pair. -/
def isLowSurrogate (n : Nat) : Bool := decide (0xDC00 ≤ n) && decide (n < 0xE000)

/-- The text of the pieces; there is none if half of a surrogate pair stands alone. -/
def textOf? : List Piece → Option (List Char)
  | [] => some []
  | .char c :: ps => (textOf? ps).map (c :: ·)
  | .unit n :: ps =>
    if isHighSurrogate n then
      match ps with
      | .unit m :: ps =>
        if isLowSurrogate m then
          (textOf? ps).map (Char.ofNat (0x10000 + (n - 0xD800) * 0x400 + (m - 0xDC00)) :: ·)
        else none
      | _ => none
    else if isLowSurrogate n then none
    else (textOf? ps).map (Char.ofNat n :: ·)

/-! ### Numbers -/

/-- Read digits, of which there has to be one at least. -/
def scanDigits (cs : List Char) : Option (List Char × List Char) :=
  match cs.takeWhile Char.isDigit with
  | [] => none
  | ds => some (ds, cs.dropWhile Char.isDigit)

/-- Read the part of a number behind its decimal point, if there is one. -/
def scanFraction : List Char → Option (List Char × List Char)
  | '.' :: cs => (scanDigits cs).map fun (ds, rest) => ('.' :: ds, rest)
  | cs => some ([], cs)

/-- Read the exponent of a number, if there is one. -/
def scanExponent : List Char → Option (List Char × List Char)
  | e :: cs =>
    if e = 'e' ∨ e = 'E' then
      match cs with
      | s :: cs' =>
        if s = '+' ∨ s = '-' then (scanDigits cs').map fun (ds, rest) => (e :: s :: ds, rest)
        else (scanDigits cs).map fun (ds, rest) => (e :: ds, rest)
      | [] => none
    else some ([], e :: cs)
  | [] => some ([], [])

/-- A number from its parts, a plain integer if it is one. -/
def numberOf (negative : Bool) (whole fraction exponent : List Char) : Json :=
  let lead := if negative then ['-'] else []
  if fraction = [] ∧ exponent = [] ∧ ¬(negative ∧ whole = ['0']) then
    let n := Nat.ofDigitChars 10 whole 0
    .integer (if negative then -(n : Int) else n)
  else .decimal (String.ofList (lead ++ whole ++ fraction ++ exponent))

/-- Read a number from behind its sign. Only zero itself starts with the digit 0. -/
def scanUnsigned (negative : Bool) (cs : List Char) : Option (Json × List Char) :=
  (scanDigits cs).bind fun (whole, rest) =>
    if whole.head? = some '0' ∧ whole ≠ ['0'] then none
    else
      (scanFraction rest).bind fun (fraction, rest) =>
        (scanExponent rest).map fun (exponent, rest) =>
          (numberOf negative whole fraction exponent, rest)

/-- Read a number. -/
def scanNumber : List Char → Option (Json × List Char)
  | '-' :: cs => scanUnsigned true cs
  | cs => scanUnsigned false cs

/-! ### Tokens -/

/-- The character may stand between tokens. -/
def isSpace (c : Char) : Bool := c == ' ' || c == '\t' || c == '\n' || c == '\r'

/-- Read the token that starts with a character. -/
def scanToken (c : Char) (cs : List Char) : Option (Token × List Char) :=
  match c, cs with
  | '[', cs => some (.openArray, cs)
  | ']', cs => some (.closeArray, cs)
  | '\x7b', cs => some (.openObject, cs)
  | '\x7d', cs => some (.closeObject, cs)
  | ',', cs => some (.comma, cs)
  | ':', cs => some (.colon, cs)
  | 'n', 'u' :: 'l' :: 'l' :: cs => some (.atom .null, cs)
  | 't', 'r' :: 'u' :: 'e' :: cs => some (.atom (.bool true), cs)
  | 'f', 'a' :: 'l' :: 's' :: 'e' :: cs => some (.atom (.bool false), cs)
  | '"', cs =>
    (scanString cs).map fun (pieces, rest) =>
      (.atom (.string ((textOf? pieces).map String.ofList)), rest)
  | c, cs => (scanNumber (c :: cs)).map fun (j, rest) => (.atom j, rest)

theorem scanString_length {cs rest : List Char} {ps : List Piece}
    (h : scanString cs = some (ps, rest)) : rest.length ≤ cs.length := by
  fun_induction scanString cs generalizing ps rest with
  | case1 => simp_all
  | case2 a b c d cs ih =>
    simp only [bind, Option.bind_eq_some_iff, pure, Option.some.injEq, Prod.mk.injEq] at h
    obtain ⟨n, -, ⟨qs, r⟩, h, -, rfl⟩ := h
    have := ih h
    simp only [List.length_cons]
    omega
  | case3 e cs _ ih =>
    simp only [bind, Option.bind_eq_some_iff, pure, Option.some.injEq, Prod.mk.injEq] at h
    obtain ⟨n, -, ⟨qs, r⟩, h, -, rfl⟩ := h
    have := ih h
    simp only [List.length_cons]
    omega
  | case4 => simp at h
  | case5 c cs _ _ _ _ ih =>
    simp only [bind, Option.bind_eq_some_iff, pure, Option.some.injEq, Prod.mk.injEq] at h
    obtain ⟨⟨qs, r⟩, h, -, rfl⟩ := h
    have := ih h
    simp only [List.length_cons]
    omega
  | case6 => simp at h

theorem length_dropWhile_le (p : Char → Bool) (cs : List Char) :
    (cs.dropWhile p).length ≤ cs.length :=
  (List.dropWhile_suffix p).length_le

theorem scanDigits_length {cs ds rest : List Char} (h : scanDigits cs = some (ds, rest)) :
    rest.length < cs.length := by
  cases cs with
  | nil => simp [scanDigits] at h
  | cons c cs =>
    cases hc : c.isDigit with
    | false => simp [scanDigits, hc] at h
    | true =>
      simp only [scanDigits, List.takeWhile_cons, List.dropWhile_cons, hc, if_true,
        Option.some.injEq, Prod.mk.injEq] at h
      obtain ⟨-, rfl⟩ := h
      exact Nat.lt_succ_of_le (length_dropWhile_le _ cs)

theorem scanFraction_length {cs ds rest : List Char} (h : scanFraction cs = some (ds, rest)) :
    rest.length ≤ cs.length := by
  unfold scanFraction at h
  split at h
  · simp only [Option.map_eq_some_iff, Prod.mk.injEq, Prod.exists] at h
    obtain ⟨_, _, h, -, rfl⟩ := h
    exact Nat.le_succ_of_le (Nat.le_of_lt (scanDigits_length h))
  · simp only [Option.some.injEq, Prod.mk.injEq] at h
    exact h.2 ▸ Nat.le_refl _

theorem scanExponent_length {cs ds rest : List Char} (h : scanExponent cs = some (ds, rest)) :
    rest.length ≤ cs.length := by
  unfold scanExponent at h
  split at h
  · split at h
    · split at h
      · split at h
        · simp only [Option.map_eq_some_iff, Prod.mk.injEq, Prod.exists] at h
          obtain ⟨_, _, h, -, rfl⟩ := h
          have := scanDigits_length h
          simp only [List.length_cons]
          omega
        · simp only [Option.map_eq_some_iff, Prod.mk.injEq, Prod.exists] at h
          obtain ⟨_, _, h, -, rfl⟩ := h
          have := scanDigits_length h
          simp only [List.length_cons] at this ⊢
          omega
      · simp at h
    · simp only [Option.some.injEq, Prod.mk.injEq] at h
      exact h.2 ▸ Nat.le_refl _
  · simp only [Option.some.injEq, Prod.mk.injEq] at h
    exact h.2 ▸ Nat.le_refl _

theorem scanUnsigned_length {negative : Bool} {cs rest : List Char} {j : Json}
    (h : scanUnsigned negative cs = some (j, rest)) : rest.length < cs.length := by
  obtain ⟨⟨w, r₁⟩, h₁, h⟩ := Option.bind_eq_some_iff.mp h
  dsimp only at h
  split at h
  · simp at h
  · obtain ⟨⟨f, r₂⟩, h₂, h⟩ := Option.bind_eq_some_iff.mp h
    obtain ⟨⟨x, r₃⟩, h₃, h⟩ := Option.map_eq_some_iff.mp h
    obtain ⟨-, rfl⟩ := Prod.mk.injEq .. ▸ h
    exact Nat.lt_of_le_of_lt (scanExponent_length h₃)
      (Nat.lt_of_le_of_lt (scanFraction_length h₂) (scanDigits_length h₁))

theorem scanNumber_length {cs rest : List Char} {j : Json}
    (h : scanNumber cs = some (j, rest)) : rest.length < cs.length := by
  unfold scanNumber at h
  split at h
  · exact Nat.lt_succ_of_lt (scanUnsigned_length h)
  · exact scanUnsigned_length h

/-- A token leaves less of the text than there was. -/
theorem scanToken_length {c : Char} {cs rest : List Char} {t : Token}
    (h : scanToken c cs = some (t, rest)) : rest.length ≤ cs.length := by
  unfold scanToken at h
  split at h
  case h_10 =>
    simp only [Option.map_eq_some_iff, Prod.mk.injEq, Prod.exists] at h
    obtain ⟨_, _, h, -, rfl⟩ := h
    exact scanString_length h
  case h_11 =>
    simp only [Option.map_eq_some_iff, Prod.mk.injEq, Prod.exists] at h
    obtain ⟨_, _, h, -, rfl⟩ := h
    exact Nat.le_of_lt_succ (scanNumber_length h)
  all_goals
    simp only [Option.some.injEq, Prod.mk.injEq] at h
    obtain ⟨-, rfl⟩ := h
    grind

/-- Cut a text into tokens. -/
def lex : List Char → Option (List Token)
  | [] => some []
  | c :: cs =>
    if isSpace c then lex cs
    else
      match _h : scanToken c cs with
      | some (t, rest) => (lex rest).map (t :: ·)
      | none => none
  termination_by cs => cs.length
  decreasing_by
    · simp
    · have := scanToken_length _h
      simp only [List.length_cons]
      omega

/-! ### Writing tokens -/

/-- One character inside the quotes of a string. -/
def renderChar (c : Char) : List Char :=
  if c = '"' then ['\\', '"']
  else if c = '\\' then ['\\', '\\']
  else if c = '\x08' then ['\\', 'b']
  else if c = '\x0c' then ['\\', 'f']
  else if c = '\n' then ['\\', 'n']
  else if c = '\r' then ['\\', 'r']
  else if c = '\t' then ['\\', 't']
  else if c.toNat < 0x20 then
    ['\\', 'u', '0', '0', Nat.digitChar (c.toNat / 16), Nat.digitChar (c.toNat % 16)]
  else [c]

/-- A string with its quotes. One that has no text is written as the half of a surrogate pair. -/
def renderString : Option String → List Char
  | some s => '"' :: (s.toList.flatMap renderChar ++ ['"'])
  | none => ['"', '\\', 'u', 'd', '8', '0', '0', '"']

/-- A value without parts. -/
def renderAtom : Json → List Char
  | .null => "null".toList
  | .bool true => "true".toList
  | .bool false => "false".toList
  | .integer n => Text.showInteger n
  | .decimal literal => literal.toList
  | .string text => renderString text
  | .array _ => ['[', ']']
  | .object _ => ['\x7b', '\x7d']

/-- The text of a token. -/
def Token.render : Token → List Char
  | openArray => ['[']
  | closeArray => [']']
  | openObject => ['\x7b']
  | closeObject => ['\x7d']
  | comma => [',']
  | colon => [':']
  | atom value => renderAtom value

end Directory.Json
