import Directory.Filter.Pattern

/-!
# Filters

A filter combines assertions about single attributes by conjunction, disjunction and negation.
`Filter.toText` is its usual written form, such as `(&(cn=alice)(!(sn=x)))`.
-/

namespace Directory

/-- An assertion about the values of one attribute. -/
inductive Assertion where
  | equality (attr value : String)
  | greaterEq (attr value : String)
  | lessEq (attr value : String)
  | presence (attr : String)
  | substring (attr : String) (pattern : Pattern)
  /-- Approximate match, which means the same as equality. -/
  | approxMatch (attr value : String)
  deriving DecidableEq, Repr, Inhabited

namespace Assertion

/-- The attribute that the assertion is about. -/
def attr : Assertion → String
  | equality attr _ | greaterEq attr _ | lessEq attr _ | presence attr | substring attr _
  | approxMatch attr _ => attr

/-- The kind of assertion. -/
def kind : Assertion → String
  | equality _ _ => "equality"
  | greaterEq _ _ => "greater_eq"
  | lessEq _ _ => "less_eq"
  | presence _ => "presence"
  | substring _ _ => "substring"
  | approxMatch _ _ => "approx_match"

/-- The relation and what it relates to, as written behind the attribute. -/
def relationText : Assertion → List Char
  | equality _ value => '=' :: value.toList
  | greaterEq _ value => '>' :: '=' :: value.toList
  | lessEq _ value => '<' :: '=' :: value.toList
  | presence _ => ['=', '*']
  | substring _ pattern => '=' :: pattern.toText
  | approxMatch _ value => '~' :: '=' :: value.toList

/-- The written form. -/
def toText (a : Assertion) : List Char := '(' :: (a.attr.toList ++ a.relationText ++ [')'])

end Assertion

/-- A search filter. -/
inductive Filter where
  | assertion (a : Assertion)
  | and (fs : List Filter)
  | or (fs : List Filter)
  | not (f : Filter)
  deriving Repr, Inhabited

namespace Filter

mutual

/-- The written form. -/
def toText : Filter → List Char
  | assertion a => a.toText
  | and fs => '(' :: '&' :: toTexts fs ++ [')']
  | or fs => '(' :: '|' :: toTexts fs ++ [')']
  | not f => '(' :: '!' :: f.toText ++ [')']
  termination_by structural f => f

/-- The written forms one after the other. -/
def toTexts : List Filter → List Char
  | [] => []
  | f :: fs => f.toText ++ toTexts fs
  termination_by structural fs => fs

end

/-- The written form as a string. -/
def display (f : Filter) : String := String.ofList f.toText

/-- The kind of node. -/
def kind : Filter → String
  | assertion a => a.kind
  | and _ => "and"
  | or _ => "or"
  | not _ => "not"

/-- The attribute that the filter is about, if it is a single assertion. -/
def attr? : Filter → Option String
  | assertion a => some a.attr
  | _ => none

end Filter

end Directory
