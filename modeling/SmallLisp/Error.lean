import SmallLisp.Evaluation.Error
import SmallLisp.Form.Atom
import SmallLisp.Token.Scan

/-!
# Errors between a source and its value

A source is scanned, parsed and evaluated, and each phase has errors of its own.  All of them sort
into a few kinds that do not depend on the phase.
-/

namespace SmallLisp

/-- The phases through which a source goes. -/
inductive Phase where
  | lex | parse | runtime
deriving DecidableEq

def Phase.name : Phase → String
  | lex => "lex"
  | parse => "parse"
  | runtime => "runtime"

inductive ErrorKind where
  /-- The source is not written as the language demands. -/
  | syntactic
  | unbound
  | notCallable
  | arityMismatch
  | primitiveFailure
  | exhaustedResource
deriving DecidableEq

def ErrorKind.name : ErrorKind → String
  | syntactic => "syntax error"
  | unbound => "unbound symbol"
  | notCallable => "not callable"
  | arityMismatch => "arity mismatch"
  | primitiveFailure => "primitive failure"
  | exhaustedResource => "resource exhausted"

/-- The kind of an evaluation error; a malformed list is an error of the source. -/
def EvalError.kind : EvalError → ErrorKind
  | unbound .. => .unbound
  | notCallable .. => .notCallable
  | arityMismatch .. => .arityMismatch
  | malformed .. => .syntactic
  | primitive .. => .primitiveFailure
  | depthExceeded _ => .exhaustedResource

inductive Error where
  /-- It has no tokens. -/
  | scan (e : ScanError)
  /-- Its tokens make up no forms. -/
  | form (e : FormError)
  /-- Its forms have no value. -/
  | eval (e : EvalError)
deriving DecidableEq

namespace Error

/-- The wording of an error, which begins with its phase. -/
def message : Error → String
  | scan e => "lex error: " ++ e.message
  | form e => "parse error: " ++ e.message
  | eval e => "eval error: " ++ e.message

/-- The phase in which an error arises. -/
def phase : Error → Phase
  | scan _ => .lex
  | form _ => .parse
  | eval _ => .runtime

def kind : Error → ErrorKind
  | scan _ | form _ => .syntactic
  | eval e => e.kind

/-- Where an error is located, if it is tied to a place. -/
def span? : Error → Option Span
  | scan e => some e.span
  | form e => some e.span
  | eval e => e.span?

end Error

end SmallLisp
