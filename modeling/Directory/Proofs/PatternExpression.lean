import Directory.Proofs.ValueLookup

/-!
# Patterns as regular expressions

A substring pattern is the regular expression `(?s)^ initial .* any₁ .* … anyₙ .* finish $`, where
the components are escaped so that each character stands for itself. What becomes of the expression
is the business of a library (`RegexLibrary`), of which no more is asked than what it documents:
escaped texts, the anchors `^` and `$`, and `.*` under the flag `s`, which makes `.` match any
character (`RegexLibrary.Documented`).

A matcher that such a library compiles from the expression accepts a text if and only if the text
can be cut into the components of the pattern, with any gaps, and this is what `Pattern.accepts`
computes (`RegexLibrary.Documented.bind_substring`). There are such libraries:
`RegexLibrary.elementary` reads and matches the expressions that patterns need
(`documented_elementary`).
-/

namespace Directory

/-! ### Pieces of regular expressions -/

/-- A piece of a regular expression, of the kinds that patterns need. -/
inductive Piece where
  /-- The anchor `^`. -/
  | start
  /-- The anchor `$`. -/
  | finish
  /-- A text that stands for itself. -/
  | literal (s : List Char)
  /-- The repetition `.*` of any character. -/
  | anything
  deriving DecidableEq, Repr, Inhabited

namespace Piece

/-- The piece spans `span` where this stands between `before` and `after`. -/
def Spans : Piece → (before span after : List Char) → Prop
  | start, before, span, _ => before = [] ∧ span = []
  | finish, _, span, after => span = [] ∧ after = []
  | literal s, _, span, _ => span = s
  | anything, _, _, _ => True

/-- The pieces, one after the other, span `span` where this stands between `before` and `after`. -/
def SpanAll : List Piece → (before span after : List Char) → Prop
  | [], _, span, _ => span = []
  | p :: ps, before, span, after =>
    ∃ first rest, span = first ++ rest ∧ p.Spans before first (rest ++ after) ∧
      SpanAll ps (before ++ first) rest after

/-- The pieces have a match somewhere in the text. -/
def IsMatch (ps : List Piece) (text : List Char) : Prop :=
  ∃ before span after, text = before ++ (span ++ after) ∧ SpanAll ps before span after

variable {p : Piece} {ps qs : List Piece} {before span after : List Char}

theorem spanAll_singleton : SpanAll [p] before span after ↔ p.Spans before span after := by
  constructor
  · rintro ⟨first, rest, rfl, hp, rfl⟩
    simpa using hp
  · intro hp
    exact ⟨span, [], (List.append_nil span).symm, hp, rfl⟩

theorem spanAll_append : SpanAll (ps ++ qs) before span after ↔
    ∃ first rest, span = first ++ rest ∧ SpanAll ps before first (rest ++ after) ∧
      SpanAll qs (before ++ first) rest after := by
  induction ps generalizing before span with
  | nil =>
    constructor
    · intro h
      exact ⟨[], span, rfl, rfl, by simpa using h⟩
    · rintro ⟨first, rest, rfl, rfl, hqs⟩
      simpa using hqs
  | cons p ps ih =>
    constructor
    · rintro ⟨first, rest, rfl, hp, hrest⟩
      obtain ⟨second, third, rfl, hps, hqs⟩ := ih.mp hrest
      refine ⟨first ++ second, third, by simp, ⟨first, second, rfl, ?_, hps⟩, ?_⟩
      · simpa using hp
      · simpa using hqs
    · rintro ⟨_, third, rfl, ⟨first, second, rfl, hp, hps⟩, hqs⟩
      refine ⟨first, second ++ third, by simp, ?_, ih.mpr ⟨second, third, rfl, hps, ?_⟩⟩
      · simpa using hp
      · simpa using hqs

end Piece

/-! ### The pieces of a pattern -/

namespace Pattern

open Piece

variable {p : Pattern} {text : List Char}

/-- The component stands for itself, if there is one. -/
def literals (component : Option String) : List Piece :=
  component.toList.map fun s => .literal s.toList

/-- The inner components, with any text behind each. -/
def innerPieces (any : List String) : List Piece :=
  any.flatMap fun s => [.literal s.toList, .anything]

/-- The pattern as pieces of a regular expression. -/
def pieces (p : Pattern) : List Piece :=
  .start :: (literals p.initial ++
    .anything :: (innerPieces p.any ++ (literals p.finish ++ [.finish])))

theorem spanAll_literals {component : Option String} {before span after : List Char} :
    SpanAll (literals component) before span after ↔ span = charsOf component := by
  cases component with
  | none => rfl
  | some s => exact spanAll_singleton

theorem spanAll_inner {any : List String} {before span after : List Char} :
    SpanAll (.anything :: innerPieces any) before span after ↔
      Spaced (any.map String.toList) span := by
  induction any generalizing before span with
  | nil =>
    constructor
    · intro _
      exact .nil span
    · intro _
      exact ⟨span, [], (List.append_nil span).symm, trivial, rfl⟩
  | cons s any ih =>
    constructor
    · rintro ⟨gap, _, rfl, -, segment, rest, rfl, hsegment, hrest⟩
      obtain rfl : segment = s.toList := hsegment
      exact .cons gap s.toList (ih.mp hrest)
    · intro h
      rw [List.map_cons] at h
      cases h with
      | cons gap _ hrest => exact ⟨gap, _, rfl, trivial, s.toList, _, rfl, rfl, ih.mpr hrest⟩

/-- The anchors leave no room for anything but the components and the gaps between them. -/
theorem isMatch_pieces_iff : IsMatch p.pieces text ↔ p.Describes text := by
  have hsplit : ∀ before span after, SpanAll p.pieces before span after ↔
      before = [] ∧ after = [] ∧ p.Describes span := by
    intro before span after
    have hpieces : p.pieces = [.start] ++ (literals p.initial ++
        ((.anything :: innerPieces p.any) ++ (literals p.finish ++ [.finish]))) := rfl
    simp only [hpieces, spanAll_append, spanAll_singleton, spanAll_literals, spanAll_inner, Spans]
    constructor
    · rintro ⟨_, _, rfl, ⟨rfl, rfl⟩, _, _, rfl, rfl, middle, _, rfl, hspaced, _, _, rfl, rfl, rfl,
        rfl⟩
      exact ⟨rfl, rfl, middle, by simp, hspaced⟩
    · rintro ⟨rfl, rfl, middle, rfl, hspaced⟩
      exact ⟨[], _, rfl, ⟨rfl, rfl⟩, _, _, rfl, rfl, middle, _, rfl, hspaced, charsOf p.finish, [],
        by simp, rfl, rfl, rfl⟩
  constructor
  · rintro ⟨before, span, after, rfl, h⟩
    obtain ⟨rfl, rfl, hdescribes⟩ := (hsplit before span after).mp h
    simpa using hdescribes
  · intro h
    exact ⟨[], text, [], by simp, (hsplit [] text []).mpr ⟨rfl, rfl, h⟩⟩

end Pattern

/-! ### Libraries of regular expressions -/

/-- What is used of a library of regular expressions. -/
structure RegexLibrary where
  /-- A text in which every character stands for itself. -/
  escape : List Char → List Char
  /-- Read an expression, which may be refused. What is read tells of each text whether the
  expression matches in it. -/
  compile? : List Char → Option (List Char → Bool)

namespace RegexLibrary

variable {lib : RegexLibrary}

/-- The text of a piece. -/
def write (lib : RegexLibrary) : Piece → List Char
  | .start => ['^']
  | .finish => ['$']
  | .literal s => lib.escape s
  | .anything => ['.', '*']

/-- The flag that makes the dot match every character. -/
def dotMatchesAll : List Char := ['(', '?', 's', ')']

/-- The library does what it documents with pieces that are written one after the other. -/
def Documented (lib : RegexLibrary) : Prop :=
  ∀ ps test, lib.compile? (dotMatchesAll ++ ps.flatMap lib.write) = some test →
    ∀ text, test text = true ↔ Piece.IsMatch ps text

/-- The expression that is compiled for a pattern. -/
def expression (lib : RegexLibrary) (p : Pattern) : List Char :=
  dotMatchesAll ++ ['^'] ++ escaped p.initial ++ ['.', '*'] ++
    (p.any.flatMap fun s => lib.escape s.toList ++ ['.', '*']) ++ escaped p.finish ++ ['$']
where
  /-- The component as it stands in the expression, if there is one. -/
  escaped (component : Option String) : List Char :=
    match component with
    | none => []
    | some s => lib.escape s.toList

theorem expression_eq (lib : RegexLibrary) (p : Pattern) :
    lib.expression p = dotMatchesAll ++ p.pieces.flatMap lib.write := by
  have hcomponent : ∀ o : Option String,
      (Pattern.literals o).flatMap lib.write = expression.escaped lib o := by
    intro o
    cases o <;> simp [Pattern.literals, write, expression.escaped]
  have hinner : (Pattern.innerPieces p.any).flatMap lib.write =
      p.any.flatMap fun s => lib.escape s.toList ++ ['.', '*'] := by
    rw [Pattern.innerPieces, List.flatMap_assoc]
    exact List.flatMap_congr fun s _ => by simp [write]
  simp only [expression, Pattern.pieces, List.flatMap_cons, List.flatMap_append, List.flatMap_nil,
    hcomponent, hinner, write, List.append_assoc, List.append_nil]

/-! ### An elementary library -/

/-- The characters that stand for themselves only when they are escaped. -/
def metaChars : List Char :=
  ['\\', '.', '+', '*', '?', '(', ')', '|', '[', ']', '\x7b', '\x7d', '^', '$', '#', '&', '-', '~']

/-- A character that stands for itself. -/
def escapeChar (c : Char) : List Char := if c ∈ metaChars then ['\\', c] else [c]

/-- Read pieces. Whatever else an expression may be made of is refused. -/
def readPieces : List Char → Option (List Piece)
  | [] => some []
  | c :: cs =>
    if c = '^' then (readPieces cs).map (.start :: ·)
    else if c = '$' then (readPieces cs).map (.finish :: ·)
    else if c ∈ metaChars then
      match cs with
      | [] => none
      | d :: cs =>
        if c = '\\' ∧ d ∈ metaChars then (readPieces cs).map (.literal [d] :: ·)
        else if c = '.' ∧ d = '*' then (readPieces cs).map (.anything :: ·)
        else none
    else (readPieces cs).map (.literal [c] :: ·)

/-- The test succeeds on some end of the text. It is told whether this is the whole text. -/
def somewhere (test : Bool → List Char → Bool) (atStart : Bool) (text : List Char) : Bool :=
  match text with
  | [] => test atStart []
  | c :: cs => test atStart (c :: cs) || somewhere test false cs

/-- The pieces have a match at the beginning of the text, before which there is nothing if `atStart`
says so. -/
def matchHere : List Piece → (atStart : Bool) → (text : List Char) → Bool
  | [], _, _ => true
  | .start :: ps, atStart, text => atStart && matchHere ps atStart text
  | .finish :: ps, atStart, text => text.isEmpty && matchHere ps atStart text
  | .literal s :: ps, atStart, text =>
    match afterStart? s text with
    | none => false
    | some rest => matchHere ps (atStart && s.isEmpty) rest
  | .anything :: ps, atStart, text => somewhere (matchHere ps) atStart text

/-- The pieces have a match somewhere in the text. -/
def hasMatch (ps : List Piece) (text : List Char) : Bool := somewhere (matchHere ps) true text

/-- A library that knows no expressions but those made of pieces, and tries all matches. -/
def elementary : RegexLibrary where
  escape := List.flatMap escapeChar
  compile? text := (afterStart? dotMatchesAll text).bind fun rest => (readPieces rest).map hasMatch

/-- The piece as it is read back: a text becomes one piece for each character. -/
def lettersOf : Piece → List Piece
  | .literal s => s.map fun c => .literal [c]
  | p => [p]

theorem readPieces_escapeChar (c : Char) (rest : List Char) :
    readPieces (escapeChar c ++ rest) = (readPieces rest).map (.literal [c] :: ·) := by
  unfold escapeChar
  split
  · next hmeta =>
    have hescape : '\\' ∈ metaChars := by decide
    simp [readPieces, hmeta, hescape]
  · next hplain =>
    have hstart : c ≠ '^' := fun h => hplain (h ▸ by decide)
    have hfinish : c ≠ '$' := fun h => hplain (h ▸ by decide)
    cases rest <;> simp [readPieces, hplain, hstart, hfinish]

theorem readPieces_write (p : Piece) (rest : List Char) :
    readPieces (elementary.write p ++ rest) = (readPieces rest).map (lettersOf p ++ ·) := by
  cases p with
  | start => cases rest <;> rfl
  | finish => cases rest <;> rfl
  | anything => simp [write, readPieces, metaChars, lettersOf]
  | literal s =>
    show readPieces (s.flatMap escapeChar ++ rest) = _
    induction s with
    | nil => simp [lettersOf]
    | cons c s ih =>
      rw [List.flatMap_cons, List.append_assoc, readPieces_escapeChar, ih, Option.map_map]
      rfl

theorem readPieces_flatMap_write (ps : List Piece) :
    readPieces (ps.flatMap elementary.write) = some (ps.flatMap lettersOf) := by
  induction ps with
  | nil => rfl
  | cons p ps ih => simp only [List.flatMap_cons, readPieces_write, ih, Option.map_some]

open Piece in
theorem spanAll_flatMap_lettersOf {ps : List Piece} {before span after : List Char} :
    SpanAll (ps.flatMap lettersOf) before span after ↔ SpanAll ps before span after := by
  have hliteral : ∀ (s before span after : List Char),
      SpanAll (lettersOf (.literal s)) before span after ↔ span = s := by
    intro s
    induction s with
    | nil => exact fun _ _ _ => Iff.rfl
    | cons c s ih =>
      intro before span after
      constructor
      · rintro ⟨_, rest, rfl, rfl, hrest⟩
        rw [(ih _ _ _).mp hrest]
        rfl
      · rintro rfl
        exact ⟨[c], s, rfl, rfl, (ih _ _ _).mpr rfl⟩
  have hpiece : ∀ (p : Piece) (before span after : List Char),
      SpanAll (lettersOf p) before span after ↔ p.Spans before span after := by
    intro p before span after
    cases p with
    | literal s => exact hliteral s before span after
    | start | finish | anything => exact spanAll_singleton
  induction ps generalizing before span with
  | nil => rfl
  | cons p ps ih =>
    rw [List.flatMap_cons, spanAll_append]
    simp only [hpiece, ih]
    rfl

theorem somewhere_iff {test : Bool → List Char → Bool} {before text : List Char} :
    somewhere test before.isEmpty text = true ↔
      ∃ gap rest, text = gap ++ rest ∧ test (before ++ gap).isEmpty rest = true := by
  induction text generalizing before with
  | nil =>
    rw [somewhere]
    constructor
    · intro h
      exact ⟨[], [], rfl, by rwa [List.append_nil]⟩
    · rintro ⟨gap, rest, htext, h⟩
      obtain ⟨rfl, rfl⟩ := List.append_eq_nil_iff.mp htext.symm
      rwa [List.append_nil] at h
  | cons c text ih =>
    have hlater : (before ++ [c]).isEmpty = false := by simp
    rw [somewhere, Bool.or_eq_true, ← hlater, ih]
    constructor
    · rintro (h | ⟨gap, rest, rfl, h⟩)
      · exact ⟨[], c :: text, rfl, by rwa [List.append_nil]⟩
      · exact ⟨c :: gap, rest, rfl, by simpa using h⟩
    · rintro ⟨_ | ⟨d, gap⟩, rest, htext, h⟩
      · left
        rw [List.nil_append] at htext
        rwa [htext, ← List.append_nil before]
      · right
        obtain ⟨rfl, rfl⟩ := List.cons_eq_cons.mp htext
        exact ⟨gap, rest, rfl, by simpa using h⟩

open Piece in
theorem matchHere_iff {ps : List Piece} {before text : List Char} :
    matchHere ps before.isEmpty text = true ↔
      ∃ span after, text = span ++ after ∧ SpanAll ps before span after := by
  induction ps generalizing before text with
  | nil =>
    constructor
    · intro _
      exact ⟨[], text, rfl, rfl⟩
    · intro _
      rfl
  | cons p ps ih =>
    have hsplit : (∃ span after, text = span ++ after ∧ SpanAll (p :: ps) before span after) ↔
        ∃ first rest, text = first ++ rest ∧ p.Spans before first rest ∧
          matchHere ps (before ++ first).isEmpty rest = true := by
      simp only [ih]
      constructor
      · rintro ⟨_, after, rfl, first, rest, rfl, hp, hps⟩
        exact ⟨first, rest ++ after, by simp, hp, rest, after, rfl, hps⟩
      · rintro ⟨first, _, rfl, hp, rest, after, rfl, hps⟩
        exact ⟨first ++ rest, after, by simp, first, rest, rfl, hp, hps⟩
    rw [hsplit]
    cases p with
    | start =>
      rw [matchHere, Bool.and_eq_true, List.isEmpty_iff]
      constructor
      · rintro ⟨rfl, h⟩
        exact ⟨[], text, rfl, ⟨rfl, rfl⟩, h⟩
      · rintro ⟨_, _, rfl, ⟨rfl, rfl⟩, h⟩
        exact ⟨rfl, h⟩
    | finish =>
      rw [matchHere, Bool.and_eq_true, List.isEmpty_iff]
      constructor
      · rintro ⟨rfl, h⟩
        exact ⟨[], [], rfl, ⟨rfl, rfl⟩, by rwa [List.append_nil]⟩
      · rintro ⟨_, _, rfl, ⟨rfl, rfl⟩, h⟩
        rw [List.append_nil] at h
        exact ⟨rfl, h⟩
    | literal s =>
      have hempty : (before.isEmpty && s.isEmpty) = (before ++ s).isEmpty := by
        cases before <;> rfl
      rw [matchHere, hempty]
      constructor
      · intro h
        cases hstart : afterStart? s text with
        | none =>
          rw [hstart] at h
          cases h
        | some rest =>
          rw [hstart] at h
          exact ⟨s, rest, afterStart?_eq_some_iff.mp hstart, rfl, h⟩
      · rintro ⟨_, rest, htext, rfl, h⟩
        rw [afterStart?_eq_some_iff.mpr htext]
        exact h
    | anything =>
      rw [matchHere, somewhere_iff]
      simp only [Spans, true_and]

theorem hasMatch_iff {ps : List Piece} {text : List Char} :
    hasMatch ps text = true ↔ Piece.IsMatch ps text := by
  have hsomewhere : hasMatch ps text = true ↔ ∃ before rest, text = before ++ rest ∧
      matchHere ps before.isEmpty rest = true :=
    @somewhere_iff (matchHere ps) [] text
  simp only [hsomewhere, matchHere_iff]
  constructor
  · rintro ⟨before, _, rfl, span, after, rfl, h⟩
    exact ⟨before, span, after, rfl, h⟩
  · rintro ⟨before, span, after, rfl, h⟩
    exact ⟨before, _, rfl, span, after, rfl, h⟩

theorem compile?_elementary (ps : List Piece) :
    elementary.compile? (dotMatchesAll ++ ps.flatMap elementary.write) =
      some (hasMatch (ps.flatMap lettersOf)) := by
  have hcompile : ∀ text, elementary.compile? text =
      (afterStart? dotMatchesAll text).bind fun rest => (readPieces rest).map hasMatch :=
    fun _ => rfl
  have hstart : afterStart? dotMatchesAll (dotMatchesAll ++ ps.flatMap elementary.write) =
      some (ps.flatMap elementary.write) := afterStart?_eq_some_iff.mpr rfl
  rw [hcompile, hstart, Option.bind_some, readPieces_flatMap_write]
  rfl

/-- The elementary library does what a library documents. -/
theorem documented_elementary : elementary.Documented := by
  intro ps test htest text
  rw [compile?_elementary] at htest
  rw [← Option.some.inj htest, hasMatch_iff]
  simp only [Piece.IsMatch, spanAll_flatMap_lettersOf]

end RegexLibrary

/-! ### Substring assertions -/

/-- What a compiled expression says of a value: integers have no text. -/
def RegexLibrary.testValue (test : List Char → Bool) : NormalValue → Bool
  | .integer _ => false
  | .text s => test s.toList

/-- The function tells which values have the form of the pattern. -/
structure Pattern.IsMatcher (p : Pattern) (f : NormalValue → Bool) : Prop where
  /-- The texts are those that can be cut into the components of the pattern. -/
  text_iff : ∀ s, f (.text s) = true ↔ ∃ c : Cut, c.pattern = p ∧ c.whole = s.toList
  integer : ∀ n, f (.integer n) = false
  /-- They begin with its first component. -/
  begins : ∀ start s, p.initial = some start → f (.text s) = true → start.toList <+: s.toList

theorem Pattern.isMatcher_accepts (p : Pattern) : p.IsMatcher p.accepts where
  text_iff s := by
    rw [Pattern.accepts_iff, ← Pattern.describes_iff_exists_cut]
    constructor
    · rintro ⟨_, htext, hdescribes⟩
      cases htext
      exact hdescribes
    · intro hdescribes
      exact ⟨s, rfl, hdescribes⟩
  integer _ := rfl
  begins _ _ hstart haccepts :=
    List.isPrefixOf_iff_prefix.mp (Pattern.beginsWith_of_accepts hstart haccepts)

namespace RegexLibrary

variable {lib : RegexLibrary} {r : Registry} {s : Store} {l : Leaf} {attr : String}

/-- What a library compiles for a pattern accepts the values that the pattern accepts. -/
theorem Documented.testValue_eq (hlib : lib.Documented) {p : Pattern} {test : List Char → Bool}
    (htest : lib.compile? (lib.expression p) = some test) : testValue test = p.accepts := by
  rw [expression_eq] at htest
  funext key
  cases key with
  | integer n => rfl
  | text s =>
    rw [Bool.eq_iff_iff]
    calc test s.toList = true ↔ Piece.IsMatch p.pieces s.toList := hlib p.pieces test htest s.toList
      _ ↔ p.Describes s.toList := Pattern.isMatch_pieces_iff
      _ ↔ p.accepts (.text s) = true := Pattern.matchesText_iff.symm

/-- **A substring assertion matches what can be cut into its components.** It is bound to the
canonical form of the pattern. What any documented library compiles for this tells the values that
can be cut into the components of the pattern from all others, and so does the condition of the
assertion. -/
theorem Documented.bind_substring (hlib : lib.Documented) {raw : Pattern}
    (hl : Leaf.bind s r (.substring attr raw) = .ok l) :
    ∃ rule p, l.condition = .like rule p ∧ raw.normalize rule.normalizer = .ok p ∧
      ∀ test, lib.compile? (lib.expression p) = some test →
        p.IsMatcher (testValue test) ∧ testValue test = l.condition.acceptsKey := by
  obtain ⟨t, condition, -, hcondition, rfl⟩ := Leaf.bind_eq_bound_iff.mp hl
  obtain ⟨rule, p, -, -, hp, rfl⟩ := Leaf.conditionOf_substring_iff.mp hcondition
  refine ⟨rule, p, rfl, hp, fun test htest => ?_⟩
  have heq := hlib.testValue_eq htest
  exact ⟨heq ▸ p.isMatcher_accepts, heq⟩

/-- The characters that are special in an expression are not so in a pattern, and a gap may contain
a line break. -/
theorem bind_substring_elementary :
    let raw : Pattern := ⟨some "Mc", ["(.", "."], some ")"⟩
    let p : Pattern := ⟨some "mc", ["(.", "."], some ")"⟩
    ∃ l test, elementary.Documented ∧
      Leaf.bind (Store.new "people") .surnames (.substring "sn" raw) = .ok l ∧
      l.condition = .like .caseIgnoreSubstringsMatch p ∧
      elementary.compile? (elementary.expression p) = some test ∧ p.IsMatcher (testValue test) ∧
      testValue test (.text "mc(.\n.)") = true ∧ testValue test (.text "mc(.\n)") = false := by
  intro raw p
  have hbind : ∃ l, Leaf.bind (Store.new "people") .surnames (.substring "sn" raw) = .ok l ∧
      l.condition = .like .caseIgnoreSubstringsMatch p :=
    exists_eq_ok_of_decide (by decide +kernel)
  obtain ⟨l, hl, hcondition⟩ := hbind
  have htest := compile?_elementary p.pieces
  rw [← expression_eq] at htest
  obtain ⟨rule, p', hcondition', -, hmatches⟩ := documented_elementary.bind_substring hl
  obtain ⟨rfl, rfl⟩ := Condition.like.inj (hcondition.symm.trans hcondition')
  obtain ⟨hmatcher, heq⟩ := hmatches _ htest
  have haccepts := heq.trans (congrArg Condition.acceptsKey hcondition)
  refine ⟨l, _, documented_elementary, hl, hcondition, htest, hmatcher, ?_, ?_⟩
  · rw [haccepts]
    decide +kernel
  · rw [haccepts]
    decide +kernel

end RegexLibrary

end Directory
