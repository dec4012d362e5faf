import SmallLisp.Proofs.Primitive.Unguarded

/-!
# Calls that take their arguments on trust

Here the table of primitive procedures is written once more (`Primitive.routine`), with the bodies
of `SmallLisp.Trusting`, which look at the list of arguments by index, and with bodies of that kind
for the three procedures that evaluate or print something.  The number of arguments is checked once,
before the body, against the number that the procedure declares, and that alone has to keep every
index in range (`Primitive.evaluates_callUnguarded`).  The procedure `map` also looks up the
elements of the lists that it is given; there it is the length of the shortest list that keeps the
index in range (`Trusting.columns_forall₂`).

A call may come to other calls, of procedures that take their arguments on trust just the same.  So
the evaluator is put together with such calls, and with any rule for what happens at a mishap.  It
is the same evaluator as before, whatever the rule (`unguarded_eq`).
-/

namespace SmallLisp

/-! ## Evaluations with mishaps -/

/-- An evaluation with steps that nothing guards. -/
abbrev TrustingM := ExceptT Mishap EvalM

namespace TrustingM

variable {α β : Type}

/-- A computation that neither looks at the state nor changes it. -/
def compute (x : Trusting α) : TrustingM α := .mk (pure x)

/-- The evaluation has no mishap, and does what the other one does. -/
def Evaluates (m : TrustingM α) (m' : EvalM α) : Prop := m.run = Except.ok <$> m'

lemma evaluates_lift (m : EvalM α) : Evaluates (.lift m) m := rfl

lemma Evaluates.ne_mishap {m : TrustingM α} {m' : EvalM α} (h : Evaluates m m') (mishap : Mishap)
    (s s' : State) : m.run s ≠ .ok (.error mishap) s' := by
  rw [h, map_eq_pure_bind]
  change EvalM.bind m' (fun a => EvalM.pure (Except.ok a)) s ≠ _
  unfold EvalM.bind
  cases m' s <;> simp [EvalM.pure]

lemma Evaluates.bind {m : TrustingM α} {m' : EvalM α} {f : α → TrustingM β} {f' : α → EvalM β}
    (h : Evaluates m m') (hf : ∀ a, Evaluates (f a) (f' a)) : Evaluates (m >>= f) (m' >>= f') := by
  unfold Evaluates at *
  rw [ExceptT.run_bind, h]
  simp only [map_eq_pure_bind, bind_assoc, pure_bind, hf]

/-- Two evaluations in a row may be taken one by one. -/
lemma evaluates_lift_bind {γ : Type} {m : EvalM α} {g : α → EvalM β} {f : β → TrustingM γ}
    {m' : EvalM γ} (h : Evaluates (.lift m >>= fun a => .lift (g a) >>= f) m') :
    Evaluates (.lift (m >>= g) >>= f) m' := by
  unfold Evaluates at *
  rw [← h]
  simp only [ExceptT.run_bind_lift, bind_assoc]

/-- A computation without a mishap leaves what follows as it is. -/
lemma evaluates_compute_bind {x : Trusting α} {a : α} {f : α → TrustingM β} {m : EvalM β}
    (hx : x = .ok a) (hf : Evaluates (f a) m) : Evaluates (compute x >>= f) m := by
  subst hx
  exact hf

/-- The evaluation, with a rule for what happens at a mishap. -/
def settle (host : Mishap → EvalM α) (m : TrustingM α) : EvalM α := do
  match ← m.run with
  | .ok a => return a
  | .error mishap => host mishap

/-- The rule for mishaps is of no importance where there are none. -/
lemma Evaluates.settle_eq {m : TrustingM α} {m' : EvalM α} (h : Evaluates m m')
    (host : Mishap → EvalM α) : m.settle host = m' := by
  unfold Evaluates at h
  rw [settle, h]
  simp only [map_eq_pure_bind, bind_assoc, pure_bind, bind_pure]

end TrustingM

open Trusting TrustingM

/-! ## The procedures that evaluate or print -/

section Routines

variable (call : FrameId → Value → List Value → EvalM Value) (env : FrameId)

/-- The procedure `apply`. -/
def applyUnguarded (args : List Value) : TrustingM Value := do
  let f ← compute (element args 0)
  if f.isProcedure then
    let items ← compute (element args 1)
    let values ← .lift (orFault .apply (Lists.second items))
    .lift (call env f values)
  else
    .lift (.fail (.primitive .apply (.notApplicable f.kind)))

/-- Calls `f` with the elements of the lists at an index. -/
def callAt (f : Value) (lists : List (List Value)) (i : Nat) : TrustingM Value := do
  let values ← compute (lists.mapM (element · i))
  .lift (call env f values)

/-- The procedure `map`. -/
def mapUnguarded (args : List Value) : TrustingM Value := do
  let f ← compute (element args 0)
  let rest ← compute (elementsFrom args 1)
  if f.isProcedure then
    let lists ← .lift (.each (fun v => orFault .map (Lists.argument v)) rest)
    let results ← (List.range (shortest lists)).mapM (callAt call env f lists)
    .lift (.update (·.newList results))
  else
    .lift (.fail (.primitive .map (.notMappable f.kind)))

/-- The procedure `write-line`. -/
def printUnguarded (args : List Value) : TrustingM Value := do
  let v ← compute (element args 0)
  .lift (printBody v)

lemma evaluates_applyUnguarded (f list : Value) :
    Evaluates (applyUnguarded call env [f, list]) (applyBody call env f list) := by
  refine evaluates_compute_bind rfl ?_
  unfold applyBody
  split
  · refine evaluates_compute_bind rfl ?_
    exact (evaluates_lift _).bind fun values => evaluates_lift _
  · exact evaluates_lift _

lemma evaluates_printUnguarded (v : Value) : Evaluates (printUnguarded [v]) (printBody v) :=
  evaluates_compute_bind rfl (evaluates_lift _)

variable {call env}

/-- Calling by index is calling with the columns. -/
lemma evaluates_mapM_callAt {f : Value} {lists : List (List Value)} {indices : List Nat}
    {columns : List (List Value)} (h : List.Forall₂ (Column lists) indices columns) :
    Evaluates (indices.mapM (callAt call env f lists)) (.each (call env f) columns) := by
  induction h with
  | nil => exact evaluates_lift (pure [])
  | cons hcolumn _ ih =>
    rw [List.mapM_cons, EvalM.each]
    refine Evaluates.bind ?_ fun value => ih.bind fun values => evaluates_lift (pure _)
    exact evaluates_compute_bind hcolumn.mapM_element (evaluates_lift _)

variable (call env)

lemma evaluates_mapUnguarded (f list : Value) (rest : List Value) :
    Evaluates (mapUnguarded call env (f :: list :: rest)) (mapBody call env f list rest) := by
  refine evaluates_compute_bind rfl (evaluates_compute_bind rfl ?_)
  unfold mapBody
  split
  -- The body asks for the first list and then for the others; here it is one loop for all of them.
  · refine evaluates_lift_bind ?_
    refine (evaluates_lift _).bind fun first => evaluates_lift_bind ?_
    refine (evaluates_lift _).bind fun others => ?_
    refine (evaluates_mapM_callAt (columns_forall₂ first others)).bind fun results => ?_
    exact evaluates_lift _
  · exact evaluates_lift _

end Routines

/-! ## The table of procedures -/

/-- What a primitive procedure does with the list of its arguments. -/
inductive Routine where
  /-- It looks at them only. -/
  | pure (f : List Value → Trusting (Except Fault Answer))
  /-- It evaluates or prints something. -/
  | host (f : List Value → TrustingM Value)

namespace Primitive

section Calls

variable [Machine]
variable (call : FrameId → Value → List Value → EvalM Value) (env : FrameId)

/-- What each primitive procedure does with the list of its arguments, once their number is
checked. -/
def routine : Primitive → Routine
  | add | append => .pure (two Arithmetic.add)
  | subtract => .pure (two Arithmetic.subtract)
  | multiply => .pure (two Arithmetic.multiply)
  | divide => .pure (two Arithmetic.divide)
  | greater => .pure (two (Value.ordered Ordering.isGT))
  | atLeast => .pure (two (Value.ordered Ordering.isGE))
  | less => .pure (two (Value.ordered Ordering.isLT))
  | atMost => .pure (two (Value.ordered Ordering.isLE))
  | equal | isEqual => .pure (two fun a b => .ok (.bool (a.equal b)))
  | unequal => .pure (two fun a b => .ok (.bool (!a.equal b)))
  | abs => .pure (one Arithmetic.abs)
  | round => .pure Trusting.round
  | max => .pure (choose .max)
  | min => .pure (choose .min)
  | car => .pure (one Lists.car)
  | cdr => .pure (one Lists.cdr)
  | cons => .pure Trusting.cons
  | list => .pure fun args => return .ok (.list args)
  | length => .pure (one Lists.length)
  | isSame => .pure (two fun a b => .ok (.bool (a.identical b)))
  | isList => .pure (one fun v => .ok (.bool v.items?.isSome))
  | isNull => .pure (one fun v => .ok (.bool (Lists.isNull v)))
  | isProcedure => .pure (one fun v => .ok (.bool v.isProcedure))
  | not => .pure (one fun v => .ok (.bool (!v.isTruthy)))
  | apply => .host (applyUnguarded call env)
  | map => .host (mapUnguarded call env)
  | writeLine => .host printUnguarded

/-- Calls a primitive procedure from `env`: the arguments are counted, and then it gets the list of
them. -/
def callUnguarded (p : Primitive) (args : List Value) : TrustingM Value :=
  if p.arity.accepts args.length then
    match p.routine call env with
    | .pure f => do
      let result ← compute (f args)
      .lift (p.answer result)
    | .host f => f args
  else
    .lift (.fail (.arityMismatch p.name p.arity args.length))

/-- If a procedure looks at its arguments only, then what it does with the list of them computes its
body. -/
lemma exists_routine {p : Primitive} {body : Body (Except Fault Answer)}
    (h : p.meaning = .operation body) : ∃ f, p.routine call env = .pure f ∧ Computes f body := by
  cases p with
  | apply | map | writeLine => cases h
  | abs | car | cdr | length | isList | isNull | isProcedure | not =>
    cases h
    exact ⟨_, rfl, computes_one _⟩
  | round =>
    cases h
    exact ⟨_, rfl, computes_round⟩
  | max | min =>
    cases h
    exact ⟨_, rfl, computes_choose _⟩
  | cons =>
    cases h
    exact ⟨_, rfl, computes_cons⟩
  | list =>
    cases h
    exact ⟨_, rfl, computes_any _⟩
  | add | append | subtract | multiply | divide | greater | atLeast | less | atMost | equal
  | isEqual | unequal | isSame =>
    cases h
    exact ⟨_, rfl, computes_two _⟩

/-- A call that takes its arguments on trust has no mishap, and comes to what the body gives. -/
theorem evaluates_callUnguarded (p : Primitive) (args : List Value) :
    Evaluates (p.callUnguarded call env args) (callPrimitive call env p args) := by
  by_cases haccepts : p.arity.accepts args.length = true
  · rw [callUnguarded, if_pos haccepts]
    rcases called_or_refused call env p args with ⟨m, hm, hcalled⟩ | hrefused
    · rw [hm]
      cases hcalled with
      | operation meaning run =>
        obtain ⟨f, hf, hcomputes⟩ := exists_routine call env meaning
        rw [hf]
        exact evaluates_compute_bind (hcomputes args _ run) (evaluates_lift _)
      | application f list => exact evaluates_applyUnguarded call env f list
      | mapping f list lists => exact evaluates_mapUnguarded call env f list lists
      | printing v => exact evaluates_printUnguarded v
    · rw [haccepts] at hrefused
      cases hrefused
  · rw [callUnguarded, if_neg haccepts, callPrimitive_of_refused (by simpa using haccepts)]
    exact evaluates_lift _

end Calls

end Primitive

/-! ## The evaluator with such calls -/

section Evaluator

variable [Machine] (host : Mishap → EvalM Value) (config : Config)

/-- Calls a value, where primitive procedures take their arguments on trust. -/
def callValueUnguarded (eval : Site → Form → EvalM Value)
    (call : FrameId → Value → List Value → EvalM Value) (env : FrameId) (callee : Value)
    (args : List Value) : EvalM Value :=
  match callee with
  | .primitive p => (p.callUnguarded call env args).settle host
  | .closure _ c => callClosure eval config env c args
  | v => .fail (.notCallable v.kind .nowhere)

mutual

/-- Evaluates a form at a site, with evaluations nested at most `fuel` deep. -/
def evalUnguarded (fuel : Nat) (site : Site) (form : Form) : EvalM Value :=
  match fuel with
  | 0 => .exhausted
  | n + 1 => evalForm (evalUnguarded n) (callUnguarded n) site form

/-- Calls a value from `env`, with evaluations nested at most `fuel` deep. -/
def callUnguarded (fuel : Nat) (env : FrameId) (callee : Value) (args : List Value) :
    EvalM Value :=
  match fuel with
  | 0 => .exhausted
  | n + 1 => callValueUnguarded host config (evalUnguarded n) (callUnguarded n) env callee args

end

/-- One step makes no use of the rule for mishaps. -/
lemma callValueUnguarded_eq (eval : Site → Form → EvalM Value)
    (call : FrameId → Value → List Value → EvalM Value) :
    callValueUnguarded host config eval call = callValue eval call config := by
  funext env callee args
  cases callee with
  | primitive p => exact (p.evaluates_callUnguarded call env args).settle_eq host
  | _ => rfl

/-- The evaluator in which primitive procedures take their arguments on trust is the evaluator. -/
theorem unguarded_eq (fuel : Nat) :
    evalUnguarded host config fuel = eval config fuel ∧
      callUnguarded host config fuel = call config fuel := by
  -- Evaluating and calling need each other, one level of nesting below.
  induction fuel with
  | zero =>
    constructor
    · funext site form
      rw [evalUnguarded, eval]
    · funext env callee args
      rw [callUnguarded, call]
  | succ n ih =>
    obtain ⟨heval, hcall⟩ := ih
    constructor
    · funext site form
      rw [evalUnguarded, eval, heval, hcall]
    · funext env callee args
      rw [callUnguarded, call, heval, hcall, callValueUnguarded_eq]

end Evaluator

/-! ## No mishap -/

/-- No primitive procedure has a mishap, whatever it is called with and whatever the calls are worth
that it makes itself: a call that takes its arguments on trust ends as the body says.  With a number
of arguments that the procedure does not accept, it fails, says so, and changes nothing.  The
rounding of integers never leaves the words.  And as no call has a mishap, the evaluator that is
made from such calls is the evaluator. -/
theorem no_mishap [Machine] (caller : FrameId → Value → List Value → EvalM Value) (env : FrameId)
    (p : Primitive) (args : List Value) :
    (∀ mishap s s', (p.callUnguarded caller env args).run s ≠ .ok (.error mishap) s') ∧
    (p.callUnguarded caller env args).run = Except.ok <$> callPrimitive caller env p args ∧
    (p.arity.accepts args.length = false → ∀ s, (p.callUnguarded caller env args).run s =
      .error (.arityMismatch p.name p.arity args.length) s) ∧
    (∀ i digits : Int64, roundWord i digits = .ok (Arithmetic.roundInt i digits.toInt)) ∧
    ∀ host config fuel, evalUnguarded host config fuel = eval config fuel ∧
      callUnguarded host config fuel = call config fuel := by
  have hrun : (p.callUnguarded caller env args).run =
      Except.ok <$> callPrimitive caller env p args := p.evaluates_callUnguarded caller env args
  refine ⟨?_, hrun, ?_, roundWord_eq, fun host config fuel => unguarded_eq host config fuel⟩
  · exact (p.evaluates_callUnguarded caller env args).ne_mishap
  · intro hrefused s
    rw [hrun, Primitive.callPrimitive_of_refused hrefused]
    rfl

section

open scoped Machine

/-- Of two lists with two elements and one, `map` looks up the first elements only.  Without a list
it is refused, and no index is looked up. -/
theorem no_mishap_map :
    let args : List Value :=
      [.primitive .list, .list (.fresh 0) [.int 1, .int 2], .list (.fresh 1) [.int 3]]
    (Primitive.map.callUnguarded (call {} 9) 0 args).run { objects := 2 } =
        .ok (.ok (.list (.fresh 3) [.list (.fresh 2) [.int 1, .int 3]])) { objects := 4 } ∧
      Primitive.map.arity.accepts [Value.primitive .car].length = false ∧
      (Primitive.map.callUnguarded (call {} 9) 0 [.primitive .car]).run {} =
        .error (.arityMismatch "map" (.atLeast 2) 1) {} := by
  intro args
  obtain ⟨-, hrun, -⟩ := no_mishap (call {} 9) 0 .map args
  have hrefused : Primitive.map.arity.accepts [Value.primitive .car].length = false := rfl
  refine ⟨?_, hrefused, (no_mishap (call {} 9) 0 .map [.primitive .car]).2.2.1 hrefused {}⟩
  rw [hrun]
  rfl

end

end SmallLisp
