import SmallLisp.Evaluation.State

/-!
# The evaluator

`eval` evaluates a form at a site, `call` calls a procedure with values.  Each of the two is
written as one step (`evalForm`, `callValue`) that is given the evaluator to use for everything
inside it, and the two are tied together by a bound on the nesting of evaluations.

* Numbers and strings evaluate to themselves, symbols to what they are bound to.
* In a call the head is evaluated first and must be a procedure; then the arguments are
  evaluated, from left to right.
* `define` binds in the frame of the site itself.  Nothing else changes a frame.
-/

namespace SmallLisp

/-- Where a form is evaluated. -/
structure Site where
  /-- The number of the source that the form was read from. -/
  source : Nat
  /-- The frame in which its symbols are looked up and its definitions are made. -/
  env : FrameId

/-! ## One step -/

variable [Machine]

section Step

variable (eval : Site → Form → EvalM Value)
variable (call : FrameId → Value → List Value → EvalM Value)

def evalShape (site : Site) : Shape → EvalM Value
  | .lambda params body => .update (·.newClosure ⟨params, body, site.source, site.env⟩)
  | .conditional condition consequent alternative => do
    if (← eval site condition).isTruthy then eval site consequent
    else match alternative with
      | some form => eval site form
      | none => return .nil
  | .define name form => do
    let value ← eval site form
    .update fun s => (.nil, s.define site.env name value)
  | .sequence forms => .sequence (eval site) .nil forms
  | .call head args => do
    let callee ← eval site head
    if callee.isProcedure then
      let values ← .each (eval site) args
      call site.env callee values
    else
      .fail (.notCallable callee.kind head.span)

def evalForm (site : Site) : Form → EvalM Value
  | .int n _ => return .int n
  | .float x _ => return .float x
  | .str text span => return .str (.literal site.source span) text
  | .symbol name span => .resolve site.env name span
  | .list items span =>
    match Shape.ofList span items with
    | .ok shape => evalShape eval call site shape
    | .error (what, place) => .fail (.malformed what place)

/-- The frame for the body of a closure that is called from `env`. -/
def Config.callFrame (config : Config) (store : Store) (env : FrameId) (c : Closure)
    (args : List Value) : Frame :=
  match config.scoping with
  | .lexical => Frame.inside c.env (c.params.zip args)
  | .flat => store.snapshot env (c.params.zip args)

/-- The limit on calls in progress, if `depth` of them reach it. -/
def Config.reached? (config : Config) (depth : Nat) : Option Nat :=
  config.maxDepth.filter (· ≤ depth)

/-- Calls a closure from `env`: the arguments are counted, then the calls in progress, and then
the body is evaluated in a new frame. -/
def callClosure (config : Config) (env : FrameId) (c : Closure) (args : List Value) :
    EvalM Value := fun s =>
  if args.length = c.params.length then
    match config.reached? s.depth with
    | some limit => .error (.depthExceeded limit) s
    | none =>
      let (frame, s) := s.newFrame (config.callFrame s.store env c args)
      EvalM.nested (eval ⟨c.source, frame⟩ c.body) s
  else
    .error (.arityMismatch SpecialForm.lambda.name (.exactly c.params.length) args.length) s

/-- Fails with a fault that a primitive procedure finds. -/
def orFault {α : Type} (p : Primitive) : Except Fault α → EvalM α
  | .ok a => pure a
  | .error fault => .fail (.primitive p fault)

/-- The procedure `apply`: calls `f` with the elements of the list `args`. -/
def applyBody (env : FrameId) (f args : Value) : EvalM Value := do
  if f.isProcedure then
    call env f (← orFault .apply (Lists.second args))
  else
    .fail (.primitive .apply (.notApplicable f.kind))

/-- The procedure `map`: calls `f` with the first elements of all lists, with their second
elements, and so on up to the end of the shortest list, and gives the list of the results. -/
def mapBody (env : FrameId) (f list : Value) (lists : List Value) : EvalM Value := do
  if f.isProcedure then
    let first ← orFault .map (Lists.argument list)
    let others ← .each (fun v => orFault .map (Lists.argument v)) lists
    let results ← .each (call env f) (Lists.columns first others)
    .update (·.newList results)
  else
    .fail (.primitive .map (.notMappable f.kind))

/-- The procedure `write-line`: prints the text of `v` on a line of its own. -/
def printBody (v : Value) : EvalM Value :=
  .update fun s => (.nil, { s with output := s.output.writeLine v.text })

/-- The body of a primitive procedure that is called from `env`. -/
def Primitive.body (env : FrameId) (p : Primitive) : Body (EvalM Value) :=
  match p.meaning with
  | .operation body => body.map fun result => do
    let answer ← orFault p result
    .update (·.allocate answer)
  | .application => .two (applyBody call env)
  | .mapping => .twoOrMore (mapBody call env)
  | .printing => .one printBody

/-- The body of a primitive procedure is defined on exactly the numbers of arguments that the
procedure accepts. -/
theorem Primitive.arity_body (env : FrameId) (p : Primitive) :
    (p.body call env).arity = p.arity := by
  cases p <;> rfl

def callPrimitive (env : FrameId) (p : Primitive) (args : List Value) : EvalM Value :=
  match (p.body call env).run? args with
  | some m => m
  | none => .fail (.arityMismatch p.name p.arity args.length)

def callValue (config : Config) (env : FrameId) (callee : Value) (args : List Value) :
    EvalM Value :=
  match callee with
  | .primitive p => callPrimitive call env p args
  | .closure _ c => callClosure eval config env c args
  | v => .fail (.notCallable v.kind .nowhere)

end Step

/-! ## All steps -/

mutual

/-- Evaluates a form at a site, with evaluations nested at most `fuel` deep. -/
def eval (config : Config) (fuel : Nat) (site : Site) (form : Form) : EvalM Value :=
  match fuel with
  | 0 => .exhausted
  | n + 1 => evalForm (eval config n) (call config n) site form

/-- Calls a value from `env`, with evaluations nested at most `fuel` deep. -/
def call (config : Config) (fuel : Nat) (env : FrameId) (callee : Value) (args : List Value) :
    EvalM Value :=
  match fuel with
  | 0 => .exhausted
  | n + 1 => callValue (eval config n) (call config n) config env callee args

end

end SmallLisp
