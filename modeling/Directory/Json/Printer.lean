import Directory.Json.Token

/-!
# Writing JSON

A value is written as its tokens one after the other, without spaces.
-/

namespace Directory.Json

mutual

/-- The tokens of a value. -/
def tokens : Json → List Token
  | .array items => .openArray :: itemTokens items ++ [.closeArray]
  | .object members => .openObject :: memberTokens members ++ [.closeObject]
  | j => [.atom j]
  termination_by structural j => j

/-- The tokens of items between their brackets. -/
def itemTokens : List Json → List Token
  | [] => []
  | j :: js => tokens j ++ moreItemTokens js
  termination_by structural js => js

/-- The tokens of items that follow another. -/
def moreItemTokens : List Json → List Token
  | [] => []
  | j :: js => .comma :: tokens j ++ moreItemTokens js
  termination_by structural js => js

/-- The tokens of members between their braces. -/
def memberTokens : List (Option String × Json) → List Token
  | [] => []
  | (key, j) :: ms => .atom (.string key) :: .colon :: tokens j ++ moreMemberTokens ms
  termination_by structural ms => ms

/-- The tokens of members that follow another. -/
def moreMemberTokens : List (Option String × Json) → List Token
  | [] => []
  | (key, j) :: ms =>
    .comma :: .atom (.string key) :: .colon :: tokens j ++ moreMemberTokens ms
  termination_by structural ms => ms

end

/-- The characters of a value. -/
def render (j : Json) : List Char := j.tokens.flatMap Token.render

/-- The text of a value. -/
def print (j : Json) : String := String.ofList j.render

end Directory.Json
