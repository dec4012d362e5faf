import SmallLisp.Form.Shape
import SmallLisp.Primitive.Fault

/-!
# Evaluation errors

Every error ends the evaluation in which it arises; there is no way for a program to catch it.
-/

namespace SmallLisp

inductive EvalError where
  | unbound (name : String) (span : Span)
  /-- A value of this kind was called. -/
  | notCallable (kind : Kind) (span : Span)
  | arityMismatch (callee : String) (expected : Arity) (got : Nat)
  /-- A list has a shape that means nothing. -/
  | malformed (what : Malformation) (span : Span)
  | primitive (p : Primitive) (fault : Fault)
  /-- More calls were in progress than the limit allows. -/
  | depthExceeded (limit : Nat)
deriving DecidableEq

namespace EvalError

def message : EvalError → String
  | unbound name _ => s!"unbound symbol `{name}`"
  | notCallable kind _ => s!"cannot call a value of type {kind.name}"
  | arityMismatch callee expected got => s!"`{callee}` expects {expected.text}, got {got}"
  | malformed what _ => s!"malformed `{what.construct}`: {what.reason}"
  | primitive p fault => s!"{p.name}: {fault.message}"
  | depthExceeded limit => s!"call depth limit of {limit} exceeded"

/-- Where an evaluation error is located, if it is tied to a place. -/
def span? : EvalError → Option Span
  | unbound _ span | notCallable _ span | malformed _ span => some span
  | arityMismatch .. | primitive .. | depthExceeded _ => none

end EvalError

end SmallLisp
