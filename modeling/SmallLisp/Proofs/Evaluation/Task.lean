import SmallLisp.Proofs.Evaluation.Settles

/-!
# Which evaluations an evaluation starts

An evaluation consists of further ones: of the parts of its form, of a procedure with its
arguments, of the body of a closure.  `Starts` says which of them are started, and from which
state; each of its rules is one place where the evaluator calls itself, and demands that what the
evaluator does before has ended with a result.

With it the evaluator is taken apart in one step: an evaluation ends if all that it starts ends
(`Task.exists_ends`), and an error that ends it comes from something that it has started, or from
itself.  The latter is shown where it is used, for the error of the limit on calls.
-/

namespace SmallLisp

open EvalM

/-- Something that the evaluator is asked to do. -/
inductive Task where
  | eval (site : Site) (form : Form)
  /-- Evaluate forms in order. -/
  | sequence (site : Site) (forms : List Form)
  | call (env : FrameId) (callee : Value) (args : List Value)

namespace Task

/-- The evaluation, nested at most `n` deep. -/
def run [Machine] (config : Config) (n : Nat) : Task → EvalM Value
  | eval site form => SmallLisp.eval config n site form
  | sequence site forms => .sequence (SmallLisp.eval config n site) .nil forms
  | call env callee args => SmallLisp.call config n env callee args

/-- From the state `s`, the task ends with this outcome. -/
def Ends [Machine] (config : Config) (t : Task) (s : State) (o : Outcome Value) : Prop :=
  Settles (fun n => t.run config n) s o

end Task

/-- The state in which the body of a closure is evaluated that is called from `env`. -/
def Config.enter (config : Config) (env : FrameId) (c : Closure) (args : List Value) (s : State) :
    State :=
  { (s.newFrame (config.callFrame s.store env c args)).2 with depth := s.depth + 1 }

/-- A limit is not reached as long as fewer calls are in progress. -/
lemma Config.reached?_eq_none_iff {config : Config} {limit : Nat}
    (h : config.maxDepth = some limit) {depth : Nat} :
    config.reached? depth = none ↔ depth < limit := by
  simp [Config.reached?, h]

/-- The outcome of a call, from the outcome of the body. -/
def Outcome.leave {α : Type} : Outcome α → Outcome α
  | ok a s => ok a { s with depth := s.depth - 1 }
  | error e s => error e { s with depth := s.depth - 1 }
  | exhausted => exhausted

namespace EvalM

variable {s : State} {env : FrameId} {name : String} {span : Span}

lemma resolve_of_some {value : Value} (h : s.store.lookup env name = some value) :
    resolve env name span s = .ok value s := by
  rw [resolve, h]

lemma resolve_of_none (h : s.store.lookup env name = none) :
    resolve env name span s = .error (.unbound name span) s := by
  rw [resolve, h]

lemma nested_apply {α : Type} (m : EvalM α) (s : State) :
    nested m s = (m { s with depth := s.depth + 1 }).leave := by
  unfold nested
  cases m { s with depth := s.depth + 1 } <;> rfl

end EvalM

variable [Machine]

/-- While a task that was begun in the state `s` is done, another task is begun in the state
`s'`. -/
inductive Starts (config : Config) : Task → State → Task → State → Prop
  | condition {site span items condition consequent alternative s}
      (shape : Shape.ofList span items = .ok (.conditional condition consequent alternative)) :
      Starts config (.eval site (.list items span)) s (.eval site condition) s
  | consequent {site span items condition consequent alternative s value u}
      (shape : Shape.ofList span items = .ok (.conditional condition consequent alternative))
      (tested : (Task.eval site condition).Ends config s (.ok value u)) (true : value.isTruthy) :
      Starts config (.eval site (.list items span)) s (.eval site consequent) u
  | alternative {site span items condition consequent alternative s value u}
      (shape : Shape.ofList span items = .ok (.conditional condition consequent (some alternative)))
      (tested : (Task.eval site condition).Ends config s (.ok value u))
      (false : value.isTruthy = false) :
      Starts config (.eval site (.list items span)) s (.eval site alternative) u
  | defined {site span items name form s}
      (shape : Shape.ofList span items = .ok (.define name form)) :
      Starts config (.eval site (.list items span)) s (.eval site form) s
  | sequence {site span items forms s} (shape : Shape.ofList span items = .ok (.sequence forms)) :
      Starts config (.eval site (.list items span)) s (.sequence site forms) s
  | member {site before form after s values u}
      (done : Settles (fun n => each (eval config n site) before) s (.ok values u)) :
      Starts config (.sequence site (before ++ form :: after)) s (.eval site form) u
  | head {site span items head args s} (shape : Shape.ofList span items = .ok (.call head args)) :
      Starts config (.eval site (.list items span)) s (.eval site head) s
  | argument {site span items head before form after s callee u values v}
      (shape : Shape.ofList span items = .ok (.call head (before ++ form :: after)))
      (called : (Task.eval site head).Ends config s (.ok callee u)) (proc : callee.isProcedure)
      (done : Settles (fun n => each (eval config n site) before) u (.ok values v)) :
      Starts config (.eval site (.list items span)) s (.eval site form) v
  | callee {site span items head args s callee u values v}
      (shape : Shape.ofList span items = .ok (.call head args))
      (called : (Task.eval site head).Ends config s (.ok callee u)) (proc : callee.isProcedure)
      (done : Settles (fun n => each (eval config n site) args) u (.ok values v)) :
      Starts config (.eval site (.list items span)) s (.call site.env callee values) v
  | body {env id c args s} (count : args.length = c.params.length)
      (free : config.reached? s.depth = none) :
      Starts config (.call env (.closure id c) args) s (.eval ⟨c.source, s.store.next⟩ c.body)
        (config.enter env c args s)
  | applied {env f id items s} (proc : f.isProcedure) :
      Starts config (.call env (.primitive .apply) [f, .list id items]) s (.call env f items) s
  | mapped {env f id first lists others before column after s values u} (proc : f.isProcedure)
      (rows : lists.mapM Lists.argument = .ok others)
      (columns : Lists.columns first others = before ++ column :: after)
      (done : Settles (fun n => each (call config n env f) before) s (.ok values u)) :
      Starts config (.call env (.primitive .map) (f :: .list id first :: lists)) s
        (.call env f column) u

namespace Task

variable {config : Config} {s t : State} {o : Outcome Value}

lemma rising_run (config : Config) (t : Task) : Rising fun n => t.run config n := by
  cases t with
  | eval site form => exact rising_eval config site form
  | sequence site forms => exact Rising.sequence (rising_eval config site) _ _
  | call env callee args => exact rising_call config env callee args

/-- Tasks keep what evaluations keep. -/
lemma keeps_run {R : State → State → Prop} (h : Respected R) (config : Config) (n : Nat)
    (t : Task) :
    (t.run config n).Keeps R := by
  obtain ⟨heval, hcall⟩ := h.keeps config n
  cases t with
  | eval site form => exact heval site form
  | sequence site forms =>
    have := h.toIsPreorder
    exact Keeps.sequence (fun form _ => heval site form) _
  | call env callee args => exact hcall env callee args

/-- What evaluations keep holds between the beginning of a task and its end. -/
lemma Ends.keeps {R : State → State → Prop} {task : Task} {value : Value} (h : Respected R)
    (hend : task.Ends config s (.ok value t)) : R s t := by
  obtain ⟨n, hn⟩ := hend.exists_bound
  exact task.keeps_run h config n s t (by rw [hn]; rfl)

omit [Machine] in
/-- It holds across several evaluations, one after the other. -/
lemma keeps_each {α : Type} {R : State → State → Prop} {f : Nat → α → EvalM Value} {l : List α}
    {values : List Value} (h : Respected R) (hf : ∀ n a, (f n a).Keeps R)
    (hend : Settles (fun n => each (f n) l) s (.ok values t)) : R s t := by
  obtain ⟨n, hn⟩ := hend.exists_bound
  have := h.toIsPreorder
  exact Keeps.each (fun a _ => hf n a) s t (by rw [hn]; rfl)

/-! ## One step -/

/-- An evaluation ends as its step does. -/
lemma ends_eval_iff {site : Site} {form : Form} :
    (eval site form).Ends config s o ↔
      Settles
        (fun n => evalForm (SmallLisp.eval config n) (SmallLisp.call config n) site form) s o :=
  Settles.succ_iff.symm

/-- A list that has a shape is evaluated by its shape. -/
lemma ends_list_iff {site : Site} {span : Span} {items : List Form} {shape : Shape}
    (h : Shape.ofList span items = .ok shape) :
    (eval site (.list items span)).Ends config s o ↔
      Settles (fun n => evalShape (SmallLisp.eval config n) (SmallLisp.call config n) site shape)
        s o := by
  rw [ends_eval_iff]
  simp only [evalForm, h]

/-- A call of a procedure by its name evaluates the arguments and calls the procedure. -/
lemma eval_named_call {site : Site} {name : String} {place span : Span} {args : List Form}
    {callee : Value} (plain : SpecialForm.ofName? name = none)
    (named : s.store.lookup site.env name = some callee) (proc : callee.isProcedure) (n : Nat) :
    SmallLisp.eval config (n + 2) site (.list (.symbol name place :: args) span) s =
      (each (SmallLisp.eval config (n + 1) site) args >>= fun values =>
        SmallLisp.call config (n + 1) site.env callee values) s := by
  have hshape : Shape.ofList span (.symbol name place :: args) =
      .ok (.call (.symbol name place) args) := by
    simp only [Shape.ofList, Form.symbol?, Option.bind_some, plain]
  have hhead : SmallLisp.eval config (n + 1) site (.symbol name place) s = .ok callee s :=
    resolve_of_some named
  change evalForm _ _ _ _ s = _
  simp only [evalForm, hshape]
  change EvalM.bind (SmallLisp.eval config (n + 1) site (.symbol name place)) _ s = _
  simp only [EvalM.bind, hhead, proc, if_true]

lemma ends_named_call_iff {site : Site} {name : String} {place span : Span} {args : List Form}
    {callee : Value} (plain : SpecialForm.ofName? name = none)
    (named : s.store.lookup site.env name = some callee) (proc : callee.isProcedure) :
    (eval site (.list (.symbol name place :: args) span)).Ends config s o ↔
      Settles (fun n => each (SmallLisp.eval config n site) args >>= fun values =>
        SmallLisp.call config n site.env callee values) s o := by
  let task : Nat → EvalM Value := fun n =>
    SmallLisp.eval config n site (.list (.symbol name place :: args) span)
  let calling : Nat → EvalM Value := fun n =>
    each (SmallLisp.eval config n site) args >>= SmallLisp.call config n site.env callee
  calc
    Settles task s o
    _ ↔ Settles (fun n => task (n + 1)) s o := Settles.succ_iff.symm
    _ ↔ Settles (fun n => task (n + 2)) s o := (Settles.succ_iff (m := fun n => task (n + 1))).symm
    _ ↔ Settles (fun n => calling (n + 1)) s o := Settles.congr (eval_named_call plain named proc)
    _ ↔ Settles calling s o := Settles.succ_iff

lemma ends_call_iff {env : FrameId} {callee : Value} {args : List Value} :
    (call env callee args).Ends config s o ↔
      Settles (fun n => callValue (SmallLisp.eval config n) (SmallLisp.call config n) config env
        callee args) s o :=
  Settles.succ_iff.symm

omit [Machine] in
lemma callClosure_of_reached {eval : Site → Form → EvalM Value} {env : FrameId} {c : Closure}
    {args : List Value} {limit : Nat} (count : args.length = c.params.length)
    (reached : config.reached? s.depth = some limit) :
    callClosure eval config env c args s = .error (.depthExceeded limit) s := by
  simp only [callClosure, count, reached, if_true]

omit [Machine] in
lemma callClosure_of_count {eval : Site → Form → EvalM Value} {env : FrameId} {c : Closure}
    {args : List Value} (count : args.length ≠ c.params.length) :
    callClosure eval config env c args s =
      .error (.arityMismatch "lambda" (.exactly c.params.length) args.length) s := by
  rw [callClosure, if_neg count]
  rfl

omit [Machine] in
/-- In a call within the limit, the body of the closure is evaluated. -/
lemma callClosure_apply {eval : Site → Form → EvalM Value} {env : FrameId} {c : Closure}
    {args : List Value} (count : args.length = c.params.length)
    (free : config.reached? s.depth = none) :
    callClosure eval config env c args s =
      (eval ⟨c.source, s.store.next⟩ c.body (config.enter env c args s)).leave := by
  simp only [callClosure, count, free]
  exact nested_apply _ _

lemma ends_closure_iff {env : FrameId} {id : Identity} {c : Closure} {args : List Value}
    (count : args.length = c.params.length) (free : config.reached? s.depth = none) :
    (call env (.closure id c) args).Ends config s o ↔
      ∃ o', (eval ⟨c.source, s.store.next⟩ c.body).Ends config (config.enter env c args s) o' ∧
        o = o'.leave := by
  rw [ends_call_iff]
  constructor
  · rintro ⟨ho, bound, h⟩
    have hbound := h bound (Nat.le_refl _)
    change callClosure _ _ _ _ _ _ = o at hbound
    rw [callClosure_apply count free] at hbound
    refine ⟨_, (rising_eval config _ _).settles rfl ?_, hbound.symm⟩
    intro hex
    rw [hex] at hbound
    exact ho hbound.symm
  · rintro ⟨o', ⟨ho', bound, h⟩, rfl⟩
    refine ⟨by cases o' <;> simp_all [Outcome.leave], bound, fun n hn => ?_⟩
    change callClosure _ _ _ _ _ _ = _
    rw [callClosure_apply count free, ← h n hn]
    rfl

/-! ## An evaluation ends if all that it starts ends -/

lemma exists_ends_shape {site : Site} {span : Span} {items : List Form} {shape : Shape}
    (hshape : Shape.ofList span items = .ok shape)
    (h : ∀ t' s', Starts config (eval site (.list items span)) s t' s' →
      ∃ o, t'.Ends config s' o) :
    ∃ o, (eval site (.list items span)).Ends config s o := by
  simp only [ends_list_iff hshape]
  cases shape with
  | lambda params body => exact ⟨_, .of_forall fun _ => rfl⟩
  | conditional condition consequent alternative =>
    refine Settles.exists_bind (h _ _ (.condition hshape)) fun value u htest => ?_
    cases htruthy : value.isTruthy with
    | true => exact h _ _ (.consequent hshape htest htruthy)
    | false =>
      cases alternative with
      | none => exact ⟨_, .pure _ _⟩
      | some form => exact h _ _ (.alternative hshape htest htruthy)
  | define name form =>
    refine Settles.exists_bind (h _ _ (.defined hshape)) fun value u _ => ?_
    exact ⟨_, .of_forall fun _ => rfl⟩
  | sequence forms => exact h _ _ (.sequence hshape)
  | call head args =>
    refine Settles.exists_bind (h _ _ (.head hshape)) fun callee u hcallee => ?_
    cases hproc : callee.isProcedure with
    | true =>
      refine Settles.exists_bind (Settles.exists_each args u fun before form after values v hargs
        hbefore => ?_) fun values v hvalues => h _ _ (.callee hshape hcallee hproc hvalues)
      subst hargs
      exact h _ _ (.argument hshape hcallee hproc hbefore)
    | false => exact ⟨_, .of_forall fun _ => rfl⟩

lemma exists_ends_sequence {site : Site} {forms : List Form}
    (h : ∀ t' s', Starts config (sequence site forms) s t' s' → ∃ o, t'.Ends config s' o) :
    ∃ o, (sequence site forms).Ends config s o := by
  simp only [Ends, run, sequence_eq_each]
  refine Settles.exists_bind (Settles.exists_each forms s fun before form after values u hforms
    hbefore => ?_) fun values u _ => ⟨_, .pure _ _⟩
  subst hforms
  exact h _ _ (.member hbefore)

lemma exists_ends_applied {env : FrameId} {f list : Value}
    (h : ∀ t' s', Starts config (call env (.primitive .apply) [f, list]) s t' s' →
      ∃ o, t'.Ends config s' o) :
    ∃ o, Settles (fun n => applyBody (SmallLisp.call config n) env f list) s o := by
  unfold applyBody
  cases hproc : f.isProcedure with
  | false => exact ⟨_, .of_forall fun _ => rfl⟩
  | true =>
    refine Settles.exists_orFault_bind fun items hitems => ?_
    obtain ⟨id, rfl⟩ := Lists.eq_list_of_second hitems
    exact h _ _ (.applied hproc)

lemma exists_ends_mapped {env : FrameId} {f list : Value} {lists : List Value}
    (h : ∀ t' s', Starts config (call env (.primitive .map) (f :: list :: lists)) s t' s' →
      ∃ o, t'.Ends config s' o) :
    ∃ o, Settles (fun n => mapBody (SmallLisp.call config n) env f list lists) s o := by
  simp only [mapBody, each_orFault]
  cases hproc : f.isProcedure with
  | false => exact ⟨_, .of_forall fun _ => rfl⟩
  | true =>
    refine Settles.exists_orFault_bind fun first hfirst => ?_
    obtain ⟨id, rfl⟩ := Lists.eq_list_of_argument hfirst
    refine Settles.exists_orFault_bind fun others hothers => ?_
    refine Settles.exists_bind (Settles.exists_each _ s fun before column after values u hcolumns
      hbefore => ?_) fun values u _ => ⟨_, .of_forall fun _ => rfl⟩
    exact h _ _ (.mapped hproc hothers hcolumns hbefore)

lemma exists_ends_primitive {env : FrameId} {p : Primitive} {args : List Value}
    (h : ∀ t' s', Starts config (call env (.primitive p) args) s t' s' →
      ∃ o, t'.Ends config s' o) :
    ∃ o, (call env (.primitive p) args).Ends config s o := by
  simp only [ends_call_iff, callValue]
  rcases Primitive.called_or_refused (SmallLisp.call config 0) env p args with
    ⟨_, -, hcalled⟩ | href
  · cases hcalled with
    | @operation p body args result meaning run =>
      simp only [Primitive.callPrimitive_of_operation meaning run]
      refine Settles.exists_orFault_bind fun answer _ => ?_
      exact ⟨_, .of_forall fun _ => rfl⟩
    | application f list => exact exists_ends_applied h
    | mapping f list lists => exact exists_ends_mapped h
    | printing v => exact ⟨_, .of_forall fun _ => rfl⟩
  · simp only [Primitive.callPrimitive_of_refused href]
    exact ⟨_, .of_forall fun _ => rfl⟩

lemma exists_ends_closure {env : FrameId} {id : Identity} {c : Closure} {args : List Value}
    (h : ∀ t' s', Starts config (call env (.closure id c) args) s t' s' →
      ∃ o, t'.Ends config s' o) :
    ∃ o, (call env (.closure id c) args).Ends config s o := by
  by_cases hcount : args.length = c.params.length
  · cases hfree : config.reached? s.depth with
    | none =>
      obtain ⟨o, ho⟩ := h _ _ (.body hcount hfree)
      exact ⟨_, (ends_closure_iff hcount hfree).mpr ⟨o, ho, rfl⟩⟩
    | some limit =>
      exact ⟨_, ends_call_iff.mpr (.of_forall fun n => callClosure_of_reached hcount hfree)⟩
  · exact ⟨_, ends_call_iff.mpr (.of_forall fun n => callClosure_of_count hcount)⟩

/-- An evaluation ends if all that it starts ends. -/
theorem exists_ends (t : Task) (s : State)
    (h : ∀ t' s', Starts config t s t' s' → ∃ o, t'.Ends config s' o) :
    ∃ o, t.Ends config s o := by
  cases t with
  | eval site form =>
    cases form with
    | int | float | str => exact ⟨_, ends_eval_iff.mpr (.of_forall fun _ => rfl)⟩
    | symbol name span =>
      cases hname : s.store.lookup site.env name with
      | some value =>
        exact ⟨_, ends_eval_iff.mpr (.of_forall fun n => resolve_of_some hname)⟩
      | none => exact ⟨_, ends_eval_iff.mpr (.of_forall fun n => resolve_of_none hname)⟩
    | list items span =>
      cases hshape : Shape.ofList span items with
      | ok shape => exact exists_ends_shape hshape h
      | error e =>
        simp only [ends_eval_iff, evalForm, hshape]
        exact ⟨_, .of_forall fun _ => rfl⟩
  | sequence site forms => exact exists_ends_sequence h
  | call env callee args =>
    cases callee with
    | primitive p => exact exists_ends_primitive h
    | closure id c => exact exists_ends_closure h
    | _ => exact ⟨_, ends_call_iff.mpr (.of_forall fun _ => rfl)⟩

end Task

/-- What evaluations keep holds up to all that is begun on the way, if it holds when the body of a
closure is entered. -/
lemma Starts.keeps {config : Config} {R : State → State → Prop} {t t' : Task} {s s' : State}
    (h : Respected R) (henter : ∀ env c args s, R s (config.enter env c args s))
    (hstarts : Starts config t s t' s') : R s s' := by
  have heach {site : Site} {forms : List Form} {values : List Value} {s u : State}
      (hend : Settles (fun n => each (eval config n site) forms) s (.ok values u)) : R s u :=
    Task.keeps_each h (fun n => (h.keeps config n).1 site) hend
  cases hstarts with
  | condition | defined | sequence | head | applied => exact h.refl s
  | consequent shape tested | alternative shape tested => exact tested.keeps h
  | member done => exact heach done
  | argument shape called proc done | callee shape called proc done =>
    exact h.trans _ _ _ (called.keeps h) (heach done)
  | body => exact henter _ _ _ s
  | mapped proc rows columns done =>
    exact Task.keeps_each h (fun n => (h.keeps config n).2 _ _) done

end SmallLisp
