import SmallLisp.Form.Atom
import SmallLisp.Token.Scan

/-!
# Reading forms off tokens

The reader takes one token at a time (`Reader.step`) and keeps the lists that are still open,
innermost first.  Reading all forms of a token list is a fold of that step; reading exactly one
form stops after the first complete one and refuses what follows it.

At the top level only lists are forms: an atom or a closing parenthesis there is an error.
-/

namespace SmallLisp

/-- A list whose closing parenthesis has not been read yet. -/
structure OpenList where
  /-- Where its opening parenthesis stands. -/
  span : Span
  /-- The elements read so far, last first. -/
  items : List Form := []

/-- The reader's state between two tokens. -/
structure Reader where
  /-- The complete top-level forms, last first. -/
  done : List Form := []
  /-- The open lists, innermost first. -/
  pending : List OpenList := []

namespace Reader

/-- The list ended by the closing parenthesis at `closing`. -/
def close (list : OpenList) (closing : Span) : Form :=
  .list list.items.reverse (list.span.cover closing)

/-- The state after one more token. -/
def step (r : Reader) (t : Token) : Except FormError Reader :=
  match t.kind, r.pending with
  | .opening, pending => .ok { r with pending := { span := t.span } :: pending }
  | _, [] => .error (.unexpected t.text t.span)
  | .closing, [list] => .ok { done := close list t.span :: r.done }
  | .closing, list :: outer :: rest =>
    .ok { r with pending := { outer with items := close list t.span :: outer.items } :: rest }
  | .atom, list :: rest => do
    let form ← Form.ofAtom t.text t.span
    return { r with pending := { list with items := form :: list.items } :: rest }

/-- The forms that were read, once no list is open. -/
def finish (r : Reader) : Except FormError (List Form) :=
  match r.pending with
  | [] => .ok r.done.reverse
  | list :: _ => .error (.unclosed list.span)

/-- Reads on until one top-level form is complete; gives it with the tokens after it. -/
def firstForm (r : Reader) : List Token → Except FormError (Form × List Token)
  | [] =>
    match r.pending with
    | [] => .error .noForm
    | list :: _ => .error (.unclosed list.span)
  | t :: ts => do
    let r ← r.step t
    match r.done with
    | form :: _ => return (form, ts)
    | [] => r.firstForm ts

end Reader

/-- The only form that the tokens make up. -/
def parseOne (tokens : List Token) : Except FormError Form := do
  let (form, rest) ← ({} : Reader).firstForm tokens
  match rest with
  | [] => return form
  | t :: _ => throw (.trailing t.text t.span)

/-- All forms that the tokens make up, of which there must be one at least. -/
def parseAll (tokens : List Token) : Except FormError (List Form) :=
  if tokens.isEmpty then .error .noForm
  else do (← tokens.foldlM Reader.step {}).finish

end SmallLisp
