import SmallLisp.Span

/-!
# Tokens

A token is a parenthesis or an atom, with the exact text it has in the source and the place where
it stands.  What an atom means (a number, a string, a name) is not decided here.
-/

namespace SmallLisp

/-- The three lexical classes. -/
inductive Token.Kind where
  | opening
  | closing
  /-- Any other run of text: numbers, names and quoted strings, quotes included. -/
  | atom
deriving DecidableEq

/-- A lexical unit of a source. -/
structure Token where
  /-- The class, which alone decides how the token is parsed. -/
  kind : Token.Kind
  /-- The text as it stands in the source. -/
  text : String
  /-- Where the text stands. -/
  span : Span
deriving DecidableEq

namespace Token

/-- The opening parenthesis at a byte offset. -/
def openingAt (offset : Nat) : Token := ⟨.opening, "(", ⟨offset, offset + 1⟩⟩

/-- The closing parenthesis at a byte offset. -/
def closingAt (offset : Nat) : Token := ⟨.closing, ")", ⟨offset, offset + 1⟩⟩

end Token

end SmallLisp
