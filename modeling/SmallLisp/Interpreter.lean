import SmallLisp.Error
import SmallLisp.Evaluation.Eval
import SmallLisp.Form.Read

/-!
# Interpreters

An interpreter evaluates sources one after the other in the same global frame.  What a source
defines or prints is there for the next one, also if the source ends in an error.

`Run.ofSource` evaluates a single source in an interpreter of its own.

All of these take a bound on the nesting of evaluations, and give `none` if it is too small.
-/

namespace SmallLisp

variable [Machine]

/-- The forms of a source; a blank source has none. -/
def read (source : String) : Except Error (List Form) :=
  match tokenize source with
  | .error e => .error (.scan e)
  | .ok [] => .ok []
  | .ok tokens => (parseAll tokens).mapError .form

/-- The only form of a source. -/
def readOne (source : String) : Except Error Form :=
  match tokenize source with
  | .error e => .error (.scan e)
  | .ok tokens => (parseOne tokens).mapError .form

/-- Something that evaluates sources. -/
structure Interpreter where
  /-- The settings of all evaluations. -/
  config : Config
  /-- The frame in which top-level forms are evaluated. -/
  global : FrameId
  /-- The state between two evaluations. -/
  state : State

namespace Interpreter

/-- An interpreter on a frame that exists already.  The names of the prelude are bound there,
unless `withPrelude` is false. -/
def on (state : State) (global : FrameId) (config : Config) (output : Output) (withPrelude : Bool) :
    Interpreter where
  config := config
  global := global
  state :=
    { state with
      store := if withPrelude then state.store.definePrelude global else state.store
      depth := 0
      output := output }

/-- An interpreter on an empty frame of its own. -/
def new (config : Config) (output : Output) : Interpreter :=
  let (global, state) := ({} : State).newFrame {}
  on state global config output true

/-- Evaluates something, and keeps the state in which that ends. -/
def perform (it : Interpreter) (m : EvalM Value) : Option (Except Error Value × Interpreter) :=
  match m it.state with
  | .ok value state => some (.ok value, { it with state := state })
  | .error e state => some (.error (.eval e), { it with state := state })
  | .exhausted => none

/-- The site of the forms of a source that is read now, in the frame `env`, and the interpreter
that has read it. -/
def site (it : Interpreter) (env : FrameId) : Site × Interpreter :=
  let (source, state) := it.state.newSource
  (⟨source, env⟩, { it with state := state })

/-- The value of the last form of a source, all of which are evaluated in order up to the first
error; `nil` if there are no forms. -/
def run (fuel : Nat) (it : Interpreter) (source : String) :
    Option (Except Error Value × Interpreter) :=
  match read source with
  | .error e => some (.error e, it)
  | .ok forms =>
    let (site, it) := it.site it.global
    it.perform (.sequence (eval it.config fuel site) .nil forms)

/-- The value of a source that is a single form. -/
def runOne (fuel : Nat) (it : Interpreter) (source : String) :
    Option (Except Error Value × Interpreter) :=
  match readOne source with
  | .error e => some (.error e, it)
  | .ok form =>
    let (site, it) := it.site it.global
    it.perform (eval it.config fuel site form)

/-- The value of a call from the global frame. -/
def apply (fuel : Nat) (it : Interpreter) (callee : Value) (args : List Value) :
    Option (Except Error Value × Interpreter) :=
  it.perform (call it.config fuel it.global callee args)

/-- The value of a name in the global frame. -/
def lookup (it : Interpreter) (name : String) : Option Value :=
  it.state.store.lookup it.global name

/-- The interpreter after binding a name in the global frame. -/
def define (it : Interpreter) (name : String) (value : Value) : Interpreter :=
  { it with state := it.state.define it.global name value }

/-- The interpreter without the lines that its output has kept. -/
def clear (it : Interpreter) : Interpreter :=
  { it with state := { it.state with output := it.state.output.clear } }

end Interpreter

/-! ## Single sources -/

/-- What comes of a source that is evaluated by itself. -/
structure Run where
  /-- Its value, or the error that ended its evaluation. -/
  result : Except Error Value
  /-- The lines that it printed. -/
  printed : String

namespace Run

/-- Whether the source has a value. -/
def success (r : Run) : Bool := r.result.toBool

/-- The text of the value, or nothing. -/
def output (r : Run) : String :=
  match r.result with
  | .ok value => value.text
  | .error _ => ""

/-- The phase that failed, if one did. -/
def errorPhase? (r : Run) : Option Phase :=
  match r.result with
  | .ok _ => none
  | .error e => some e.phase

/-- Evaluates a source in an interpreter of its own, and keeps what it prints. -/
def ofSource (fuel : Nat) (config : Config) (source : String) : Option Run :=
  ((Interpreter.new config (.buffer "")).run fuel source).map fun (result, it) =>
    ⟨result, it.state.output.captured⟩

end Run

end SmallLisp
