import SmallLisp.Form
import SmallLisp.Token
import SmallLisp.Number.Literal

/-!
# What an atom stands for

An atom is tried as an integer, then as a double, then as a string, and is a symbol if it is none
of them.  The order decides: a run of digits too long for an integer is an error, although it
could be read as a double, and `inf` is a number although it could be a name.
-/

namespace SmallLisp

/-- Why tokens do not make up the forms that were asked for. -/
inductive FormError where
  /-- There are no tokens at all. -/
  | noForm
  /-- A token that cannot begin a form at the top level stands there. -/
  | unexpected (text : String) (span : Span)
  /-- The tokens end inside a list; the span is that of the innermost open parenthesis. -/
  | unclosed (span : Span)
  /-- A single form was asked for, and this token follows it. -/
  | trailing (text : String) (span : Span)
  /-- An integer literal that does not fit 64 bits. -/
  | outOfRange (text : String) (span : Span)
deriving DecidableEq

def FormError.message : FormError → String
  | noForm => "expected `(`, found end of input"
  | unexpected text span => s!"unexpected token `{text}` at {span.text}"
  | unclosed span => s!"unclosed list opened at byte {span.start}"
  | trailing text span => s!"unexpected `{text}` after the top-level form at {span.text}"
  | outOfRange text span => s!"integer literal `{text}` out of range at {span.text}"

def FormError.span : FormError → Span
  | noForm => .nowhere
  | unexpected _ span | unclosed span | trailing _ span | outOfRange _ span => span

/-- The text between two double quotes, if it is written between two of them. -/
def unquote? : List Char → Option (List Char)
  | '"' :: rest => if rest.getLast? = some '"' then some rest.dropLast else none
  | _ => none

/-- The form that an atom stands for. -/
def Form.ofAtom (text : String) (span : Span) : Except FormError Form :=
  let cs := text.toList
  if Literal.isInteger cs then
    match Integer.ofInt? (Literal.integerValue cs) with
    | some n => .ok (.int n span)
    | none => .error (.outOfRange text span)
  else
    match Literal.double? cs with
    | some x => .ok (.float x span)
    | none =>
      match unquote? cs with
      | some inner => .ok (.str (String.ofList inner) span)
      | none => .ok (.symbol text span)

end SmallLisp
