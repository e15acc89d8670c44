import Directory.Text.Range

/-!
# Blanks

The characters with the Unicode property White_Space, and the three things done with them.

* `trimStart`, `trimEnd`, `trim` drop blanks at the edges;
* `words` splits a text at its blanks, and `squeeze` joins the words with single spaces;
* `collapse` keeps the edges and turns each run of blanks into a single space.
-/

namespace Directory.Text

/-- The property White_Space. -/
def blankRanges : List Range :=
  [(0x9, 0xD), (0x20, 0x20), (0x85, 0x85), (0xA0, 0xA0), (0x1680, 0x1680), (0x2000, 0x200A),
   (0x2028, 0x2029), (0x202F, 0x202F), (0x205F, 0x205F), (0x3000, 0x3000)]

/-- The character is white space. -/
def isBlank (c : Char) : Bool := inRanges blankRanges c

/-- Drop the blanks at the start. -/
def trimStart (cs : List Char) : List Char := cs.dropWhile isBlank

/-- Drop the blanks at the end. -/
def trimEnd (cs : List Char) : List Char := (cs.reverse.dropWhile isBlank).reverse

/-- Drop the blanks at both edges. -/
def trim (cs : List Char) : List Char := trimEnd (trimStart cs)

/-- Put a character in front of the first word. -/
def consWord (c : Char) : List (List Char) → List (List Char)
  | [] => [[c]]
  | w :: ws => (c :: w) :: ws

/-- The maximal runs of characters that are not blank. -/
def words : List Char → List (List Char)
  | [] => []
  | c :: cs =>
    if isBlank c then words cs
    else if (cs.head?.all isBlank) then [c] :: words cs
    else consWord c (words cs)

/-- Words joined by single spaces. -/
def unwords : List (List Char) → List Char
  | [] => []
  | [w] => w
  | w :: ws => w ++ ' ' :: unwords ws

/-- Drop the blanks at the edges and turn each inner run of blanks into a single space. -/
def squeeze (cs : List Char) : List Char := unwords (words cs)

/-- Turn runs of blanks into single spaces, where `inRun` says that the run is already written. -/
def collapseFrom (inRun : Bool) : List Char → List Char
  | [] => []
  | c :: cs =>
    if isBlank c then
      if inRun then collapseFrom true cs else ' ' :: collapseFrom true cs
    else c :: collapseFrom false cs

/-- Turn each run of blanks into a single space, also at the edges. -/
def collapse (cs : List Char) : List Char := collapseFrom false cs

@[simp] theorem words_nil : words [] = [] := rfl

@[simp] theorem unwords_nil : unwords [] = [] := rfl

@[simp] theorem unwords_singleton (w : List Char) : unwords [w] = w := rfl

@[simp] theorem unwords_cons_cons (w v : List Char) (ws : List (List Char)) :
    unwords (w :: v :: ws) = w ++ ' ' :: unwords (v :: ws) := rfl

theorem isBlank_space : isBlank ' ' = true := by decide

end Directory.Text
