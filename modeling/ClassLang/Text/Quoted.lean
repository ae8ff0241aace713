import ClassLang.Text.Visible

/-!
# Quoted text

Messages show a text between double quotes on one line. Quotes and backslashes are written with
a backslash, the usual control characters by their letters, and every other character that is
not visible by its code point.
-/

namespace ClassLang

/-- How one character is written between the quotes. -/
def escapeChar (c : Char) : List Char :=
  if c = '\x00' then ['\\', '0']
  else if c = '\t' then ['\\', 't']
  else if c = '\r' then ['\\', 'r']
  else if c = '\n' then ['\\', 'n']
  else if c = '\\' || c = '\x22' then ['\\', c]
  else if isVisible c then [c]
  else ['\\', 'u', '\x7b'] ++ Nat.toDigits 16 c.toNat ++ ['\x7d']

/-- A text between quotes. -/
def quoted (text : String) : String :=
  String.ofList ('\x22' :: text.toList.flatMap escapeChar ++ ['\x22'])

end ClassLang
