import Directory.Text.Quoted.Table

/-!
# Quoted text

Texts in diagnostics stand between double quotes, with everything escaped that would not be seen
as itself: quotes, backslashes, control characters, characters without a visible form, and marks
that would join the character before them.
-/

namespace Directory.Text

/-- A code point as `\u` and its hexadecimal digits, without leading zeros, between braces. -/
def codeEscape (c : Char) : List Char :=
  ['\\', 'u', '\x7b'] ++ Nat.toDigits 16 c.toNat ++ ['\x7d']

/-- One character inside the quotes. -/
def quoteChar (c : Char) : List Char :=
  if c = '\x00' then ['\\', '0']
  else if c = '\t' then ['\\', 't']
  else if c = '\r' then ['\\', 'r']
  else if c = '\n' then ['\\', 'n']
  else if c = '"' || c = '\\' then ['\\', c]
  else if inRanges extendingRanges c || inRanges hiddenRanges c then codeEscape c
  else [c]

/-- The text between double quotes. -/
def quote (s : String) : String :=
  String.ofList ('"' :: (s.toList.flatMap quoteChar ++ ['"']))

end Directory.Text
