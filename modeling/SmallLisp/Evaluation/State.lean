import SmallLisp.Evaluation.Error
import SmallLisp.Primitive.Body
import SmallLisp.Value.Text
import SmallLisp.Store

/-!
# State and outcome of an evaluation

An evaluation starts in a state and ends in one, whether it gives a value or an error: what was
defined and printed before an error stays.  The third way to end is that the bound on the nesting
of evaluations, which makes the evaluator a total function, was too small (`Outcome.exhausted`).
That is no answer at all, and a larger bound may give one.
-/

namespace SmallLisp

/-! ## Settings -/

/-- In which frame the body of a closure is evaluated. -/
inductive Scoping where
  /-- In a frame inside the one in which the closure was made. -/
  | lexical
  /-- In a frame of its own, with a copy of all that is seen where the closure is called. -/
  | flat
deriving DecidableEq

structure Config where
  /-- Where the bodies of closures are evaluated. -/
  scoping : Scoping := .lexical
  /-- How many calls of closures may be in progress at a time. -/
  maxDepth : Option Nat := none
deriving DecidableEq

/-! ## State -/

/-- Where printed lines go. -/
inductive Output where
  /-- They are kept, for whoever evaluates to read. -/
  | buffer (text : String)
  /-- They are meant for the console, and wait to be written there. -/
  | console (pending : String)
  /-- They are dropped. -/
  | silent

namespace Output

/-- The output after one more line. -/
def writeLine (line : String) : Output → Output
  | buffer text => buffer (text ++ line ++ "\n")
  | console pending => console (pending ++ line ++ "\n")
  | silent => silent

/-- The lines that were kept. -/
def captured : Output → String
  | buffer text => text
  | console _ | silent => ""

/-- The output without the lines that were kept. -/
def clear : Output → Output
  | buffer _ => buffer ""
  | output => output

end Output

/-- What an evaluation reads and changes. -/
structure State where
  store : Store := {}
  /-- Number of objects that were made. -/
  objects : Nat := 0
  /-- Number of sources that were read. -/
  sources : Nat := 0
  /-- Number of calls of closures in progress. -/
  depth : Nat := 0
  /-- Where printed lines go. -/
  output : Output := .buffer ""

namespace State

/-- A new identity, and the state in which it is taken. -/
def fresh (s : State) : Identity × State := (.fresh s.objects, { s with objects := s.objects + 1 })

def newString (text : String) (s : State) : Value × State :=
  let (id, s) := s.fresh
  (.str id text, s)

def newList (items : List Value) (s : State) : Value × State :=
  let (id, s) := s.fresh
  (.list id items, s)

def newClosure (c : Closure) (s : State) : Value × State :=
  let (id, s) := s.fresh
  (.closure id c, s)

/-- The value that an answer stands for; new strings and lists get their identity here. -/
def allocate : Answer → State → Value × State
  | .value v, s => (v, s)
  | .string text, s => s.newString text
  | .list items, s => s.newList items

/-- The number of a source that is read now, and the state in which it is taken. -/
def newSource (s : State) : Nat × State := (s.sources, { s with sources := s.sources + 1 })

/-- A new frame, and the state that holds it. -/
def newFrame (frame : Frame) (s : State) : FrameId × State :=
  (s.store.next, { s with store := s.store.push frame })

/-- The state after binding a name in a frame. -/
def define (env : FrameId) (name : String) (value : Value) (s : State) : State :=
  { s with store := s.store.define env name value }

end State

/-! ## Outcome -/

/-- How an evaluation ends. -/
inductive Outcome (α : Type) where
  | ok (result : α) (state : State)
  | error (error : EvalError) (state : State)
  /-- Not within the bound on its nesting. -/
  | exhausted

/-- Something to evaluate, with a result in `α`. -/
def EvalM (α : Type) := State → Outcome α

namespace EvalM

/-- Gives a result and changes nothing. -/
@[inline] def pure {α : Type} (a : α) : EvalM α := fun s => .ok a s

/-- Evaluates `m`, and then what follows from its result. -/
@[inline] def bind {α β : Type} (m : EvalM α) (f : α → EvalM β) : EvalM β := fun s =>
  match m s with
  | .ok a s => f a s
  | .error e s => .error e s
  | .exhausted => .exhausted

instance : Monad EvalM where
  pure := pure
  bind := bind

instance : LawfulMonad EvalM := LawfulMonad.mk' EvalM
  (fun m => by funext s; change EvalM.bind m (fun a => EvalM.pure a) s = m s
               unfold EvalM.bind; cases m s <;> rfl)
  (fun _ _ => rfl)
  (fun m f g => by funext s; change EvalM.bind (EvalM.bind m f) g s = EvalM.bind m _ s
                   unfold EvalM.bind; cases m s <;> rfl)

/-- Fails and changes nothing. -/
@[inline] def fail {α : Type} (e : EvalError) : EvalM α := fun s => .error e s

/-- Is not within the bound on the nesting of evaluations. -/
@[inline] def exhausted {α : Type} : EvalM α := fun _ => .exhausted

/-- The value of a name as seen from a frame; the name stands at `span`. -/
def resolve (env : FrameId) (name : String) (span : Span) : EvalM Value := fun s =>
  match s.store.lookup env name with
  | some value => .ok value s
  | none => .error (.unbound name span) s

/-- Changes the state and gives a result. -/
@[inline] def update {α : Type} (f : State → α × State) : EvalM α := fun s =>
  let (a, s) := f s
  .ok a s

/-- Evaluates the members of a list in order, and gives the list of their results. -/
def each {α β : Type} (f : α → EvalM β) : List α → EvalM (List β)
  | [] => pure []
  | a :: rest => do
    let b ← f a
    let bs ← each f rest
    return b :: bs

/-- Evaluates the members of a list in order, and gives the last result, or `last` if there are
no members. -/
def sequence {α : Type} (f : α → EvalM Value) (last : Value) : List α → EvalM Value
  | [] => pure last
  | a :: rest => do sequence f (← f a) rest

/-- Counts a call in progress while `m` is evaluated, however that ends. -/
def nested {α : Type} (m : EvalM α) : EvalM α := fun s =>
  match m { s with depth := s.depth + 1 } with
  | .ok a s => .ok a { s with depth := s.depth - 1 }
  | .error e s => .error e { s with depth := s.depth - 1 }
  | .exhausted => .exhausted

end EvalM

end SmallLisp
