import Directory.Value.Normal
import Directory.Value.Normalizer

/-!
# Substring patterns

A pattern fixes how a text begins, what it contains in this order and without overlap, and how it
ends. `Pattern.matchesText` looks for each component at the first place where it can stand, which
leaves the most room for those that follow.
-/

namespace Directory

/-- A substring pattern `initial * any₁ * … * anyₙ * finish`. -/
structure Pattern where
  initial : Option String := none
  any : List String := []
  finish : Option String := none
  deriving DecidableEq, Repr, Inhabited

/-- What follows `segment` in a text that begins with it. -/
def afterStart? : (segment text : List Char) → Option (List Char)
  | [], text => some text
  | _ :: _, [] => none
  | c :: segment, d :: text => if c = d then afterStart? segment text else none

/-- What follows the first occurrence of `segment` in a text. -/
def afterFirst? (segment : List Char) : List Char → Option (List Char)
  | [] => afterStart? segment []
  | c :: text =>
    match afterStart? segment (c :: text) with
    | some rest => some rest
    | none => afterFirst? segment text

/-- The segments occur in the text one after the other; what follows the last of them. -/
def afterAll? : (segments : List (List Char)) → (text : List Char) → Option (List Char)
  | [], text => some text
  | s :: segments, text => (afterFirst? s text).bind (afterAll? segments)

namespace Pattern

/-- The characters of a component; an absent one has none. -/
def charsOf (component : Option String) : List Char :=
  match component with
  | none => []
  | some s => s.toList

/-- The text has the form of the pattern. -/
def matchesText (p : Pattern) (text : List Char) : Bool :=
  match (afterStart? (charsOf p.initial) text).bind (afterAll? (p.any.map String.toList)) with
  | none => false
  | some rest => (charsOf p.finish).isSuffixOf rest

/-- The value is a text of the form of the pattern. -/
def accepts (p : Pattern) : NormalValue → Bool
  | .integer _ => false
  | .text s => p.matchesText s.toList

/-- The inner components in canonical form. The first one is trimmed at its start unless something
stands before it, and the last one at its end unless something stands after it. -/
def normalizeAny (nz : Normalizer) (atStart atEnd : Bool) :
    List String → Except SchemaError (List String)
  | [] => .ok []
  | [s] => do return [← nz.normalizeSegment s atStart atEnd]
  | s :: ss => do
    let s ← nz.normalizeSegment s atStart false
    let ss ← normalizeAny nz false atEnd ss
    return s :: ss

/-- The pattern in canonical form: its outer edges are trimmed, as those of values are. -/
def normalize (nz : Normalizer) (p : Pattern) : Except SchemaError Pattern := do
  let any ← normalizeAny nz p.initial.isNone p.finish.isNone p.any
  let initial ← p.initial.mapM fun s => nz.normalizeSegment s true false
  let finish ← p.finish.mapM fun s => nz.normalizeSegment s false true
  return { initial, any, finish }

/-- The pattern with stars between its components. -/
def toText (p : Pattern) : List Char :=
  charsOf p.initial ++ '*' :: (p.any.flatMap fun s => s.toList ++ ['*']) ++ charsOf p.finish

end Pattern

end Directory
