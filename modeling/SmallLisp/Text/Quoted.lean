import SmallLisp.Text.Printable

/-!
# Quoted text

Diagnostics show a text between double quotes in such a way that every character can be seen:
quotes, backslashes and unprintable characters are escaped.  The language itself has no escapes;
this is not how its strings are written.
-/

namespace SmallLisp

/-- A character as it appears in quoted text. -/
def escaped (c : Char) : List Char :=
  if c = '\x00' then ['\\', '0']
  else if c = '\t' then ['\\', 't']
  else if c = '\n' then ['\\', 'n']
  else if c = '\r' then ['\\', 'r']
  else if c = '"' then ['\\', '"']
  else if c = '\\' then ['\\', '\\']
  else if isPrintable c then [c]
  else ['\\', 'u', '\x7b'] ++ Nat.toDigits 16 c.toNat ++ ['\x7d']

/-- A text between double quotes, with all characters visible. -/
def quoted (text : String) : String :=
  String.ofList ('"' :: text.toList.flatMap escaped ++ ['"'])

end SmallLisp
