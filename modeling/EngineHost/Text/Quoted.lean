import EngineHost.Text.Shown

/-!
# Quoted text

How a character or a text is shown inside quotation marks: the mark itself and the backslash are
escaped, the usual controls have a letter, and every other unshown character is given by its code
point.
-/

namespace EngineHost.Text

/-- The escape of a character by its code point, in lower-case hexadecimal digits. -/
def codePointEscape (c : Char) : List Char :=
  ['\\', 'u', '\x7b'] ++ Nat.toDigits 16 c.toNat ++ ['\x7d']

/-- One character inside quotation marks of the kind `mark`. -/
def quotedChar (mark c : Char) : List Char :=
  if c = mark ∨ c = '\\' then ['\\', c]
  else if c = '\t' then ['\\', 't']
  else if c = '\r' then ['\\', 'r']
  else if c = '\n' then ['\\', 'n']
  else if c.toNat = 0 then ['\\', '0']
  else if isShown c then [c]
  else codePointEscape c

/-- A character in single quotation marks. -/
def quoteChar (c : Char) : String :=
  String.ofList ('\x27' :: quotedChar '\x27' c ++ ['\x27'])

/-- A text in double quotation marks. -/
def quote (s : String) : String :=
  String.ofList ('"' :: s.toList.flatMap (quotedChar '"') ++ ['"'])

end EngineHost.Text
