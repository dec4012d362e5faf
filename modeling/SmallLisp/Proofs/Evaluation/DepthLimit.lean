import SmallLisp.Proofs.Evaluation.Cut
import SmallLisp.Proofs.Evaluation.Termination

/-!
# A limit on calls is only a cut-off

Under a limit of `m` calls in progress a source has the same result and prints the same as under
any higher limit, or under none, unless the limit is what ends its evaluation.  Then it has printed
the beginning of what it would have printed (`Run.ofSource_cut`).

Which of the two happens is decided by the evaluation without a limit: the limit ends the other one
exactly if the unlimited one reaches a call, with the right number of arguments, of a closure
inside `m` others (`exceeds_iff_reaches`).  *Inside* is counted along the evaluations that are
started by each other (`Reaches`), and not read off the counter that the evaluator keeps; that the
counter is right is `Reaches.depth_eq`.

The results and the printed text are compared by a congruence (`EvalM.Cut.congruence`).  The
remaining statement is about evaluations that need not end, so it cannot be about outcomes; it goes
along the steps of `Starts`, towards the call in one direction and away from it in the other.
-/

namespace SmallLisp

open EvalM

/-! ## Running into the limit -/

namespace Task

variable [Machine]

/-- From the state `s`, the limit ends the task. -/
def Exceeds (config : Config) (limit : Nat) (t : Task) (s : State) : Prop :=
  EvalM.Exceeds limit (fun n => t.run config n) s

variable {config : Config} {limit : Nat} {s : State}

lemma exceeds_eval_iff {site : Site} {form : Form} :
    (eval site form).Exceeds config limit s ↔
      EvalM.Exceeds limit (fun n =>
        evalForm (SmallLisp.eval config n) (SmallLisp.call config n) site form) s :=
  exists_congr fun _ => ends_eval_iff

lemma exceeds_list_iff {site : Site} {span : Span} {items : List Form} {shape : Shape}
    (hshape : Shape.ofList span items = .ok shape) :
    (eval site (.list items span)).Exceeds config limit s ↔
      EvalM.Exceeds limit (fun n =>
        evalShape (SmallLisp.eval config n) (SmallLisp.call config n) site shape) s :=
  exists_congr fun _ => ends_list_iff hshape

lemma exceeds_call_iff {env : FrameId} {callee : Value} {args : List Value} :
    (call env callee args).Exceeds config limit s ↔
      EvalM.Exceeds limit (fun n => callValue (SmallLisp.eval config n) (SmallLisp.call config n)
        config env callee args) s :=
  exists_congr fun _ => ends_call_iff

/-! ### From the task to what it starts -/

/-- The sequence is ended by the limit, if the limit ends one of its forms after those before it
have results. -/
lemma exceeds_sequence_iff {site : Site} {forms : List Form} :
    (sequence site forms).Exceeds config limit s ↔
      EvalM.Exceeds limit (fun n => each (SmallLisp.eval config n site) forms) s := by
  simp only [Exceeds, run, sequence_eq_each]
  constructor
  · intro h
    rcases h.bind_cases (Rising.each (rising_eval config site) forms) with h | ⟨a, t, ha, hpure⟩
    · exact h
    · cases EvalM.Exceeds.not_of_ok (Settles.pure _ _) hpure
  · exact EvalM.Exceeds.bind

lemma exists_starts_of_exceeds_shape {site : Site} {span : Span} {items : List Form} {shape : Shape}
    (hshape : Shape.ofList span items = .ok shape)
    (h : (eval site (.list items span)).Exceeds config limit s) :
    ∃ t' s', Starts config (eval site (.list items span)) s t' s' ∧
      t'.Exceeds config limit s' := by
  rw [exceeds_list_iff hshape] at h
  cases shape with
  | lambda params body =>
    cases EvalM.Exceeds.not_of_ok (Settles.of_forall fun _ => rfl) h
  | conditional condition consequent alternative =>
    rcases h.bind_cases (rising_eval config site condition) with h | ⟨value, t, hvalue, h⟩
    · exact ⟨_, _, .condition hshape, h⟩
    · cases htruthy : value.isTruthy with
      | true =>
        simp only [htruthy, if_true] at h
        exact ⟨_, _, .consequent hshape hvalue htruthy, h⟩
      | false =>
        simp only [htruthy, Bool.false_eq_true, if_false] at h
        cases alternative with
        | none => cases EvalM.Exceeds.not_of_ok (Settles.pure _ _) h
        | some form => exact ⟨_, _, .alternative hshape hvalue htruthy, h⟩
  | define name form =>
    rcases h.bind_cases (rising_eval config site form) with h | ⟨value, t, hvalue, h⟩
    · exact ⟨_, _, .defined hshape, h⟩
    · cases EvalM.Exceeds.not_of_ok (Settles.of_forall fun _ => rfl) h
  | sequence forms => exact ⟨_, _, .sequence hshape, h⟩
  | call head args =>
    rcases h.bind_cases (rising_eval config site head) with h | ⟨callee, t, hcallee, h⟩
    · exact ⟨_, _, .head hshape, h⟩
    · cases hproc : callee.isProcedure with
      | true =>
        simp only [hproc, if_true] at h
        rcases h.bind_cases (Rising.each (rising_eval config site) args) with
          h | ⟨values, u, hvalues, h⟩
        · obtain ⟨before, form, after, values, u, rfl, hbefore, h⟩ :=
            h.of_each (rising_eval config site)
          exact ⟨_, _, .argument hshape hcallee hproc hbefore, h⟩
        · exact ⟨_, _, .callee hshape hcallee hproc hvalues, h⟩
      | false =>
        simp only [hproc, Bool.false_eq_true, if_false] at h
        exact absurd h (EvalM.Exceeds.not_of_error fun _ => rfl)

lemma exists_starts_of_exceeds_sequence {site : Site} {forms : List Form}
    (h : (sequence site forms).Exceeds config limit s) :
    ∃ t' s', Starts config (sequence site forms) s t' s' ∧ t'.Exceeds config limit s' := by
  obtain ⟨before, form, after, values, u, rfl, hbefore, h⟩ :=
    (exceeds_sequence_iff.mp h).of_each (rising_eval config site)
  exact ⟨_, _, .member hbefore, h⟩

lemma exists_starts_of_exceeds_applied {env : FrameId} {f list : Value}
    (h : EvalM.Exceeds limit (fun n => applyBody (SmallLisp.call config n) env f list) s) :
    ∃ t' s', Starts config (call env (.primitive .apply) [f, list]) s t' s' ∧
      t'.Exceeds config limit s' := by
  unfold applyBody at h
  cases hproc : f.isProcedure with
  | true =>
    simp only [hproc, if_true] at h
    obtain ⟨items, hitems, h⟩ := h.of_orFault_bind
    obtain ⟨id, rfl⟩ := Lists.eq_list_of_second hitems
    cases hitems
    exact ⟨_, _, .applied hproc, h⟩
  | false =>
    simp only [hproc, Bool.false_eq_true, if_false] at h
    exact absurd h (EvalM.Exceeds.not_of_error fun _ => rfl)

lemma exists_starts_of_exceeds_mapped {env : FrameId} {f list : Value} {lists : List Value}
    (h : EvalM.Exceeds limit (fun n => mapBody (SmallLisp.call config n) env f list lists) s) :
    ∃ t' s', Starts config (call env (.primitive .map) (f :: list :: lists)) s t' s' ∧
      t'.Exceeds config limit s' := by
  simp only [mapBody, each_orFault] at h
  cases hproc : f.isProcedure with
  | true =>
    simp only [hproc, if_true] at h
    obtain ⟨first, hfirst, hrest⟩ := h.of_orFault_bind
    obtain ⟨id, rfl⟩ := Lists.eq_list_of_argument hfirst
    cases hfirst
    obtain ⟨others, hothers, hcalls⟩ := hrest.of_orFault_bind
    rcases hcalls.bind_cases (Rising.each (rising_call config env f) _) with h | ⟨results, u, -, h⟩
    · obtain ⟨before, column, after, values, u, hcolumns, hbefore, h⟩ :=
        h.of_each (rising_call config env f)
      exact ⟨_, _, .mapped hproc hothers hcolumns hbefore, h⟩
    · cases EvalM.Exceeds.not_of_ok (Settles.of_forall fun _ => rfl) h
  | false =>
    simp only [hproc, Bool.false_eq_true, if_false] at h
    exact absurd h (EvalM.Exceeds.not_of_error fun _ => rfl)

lemma exists_starts_of_exceeds_primitive {env : FrameId} {p : Primitive} {args : List Value}
    (h : (call env (.primitive p) args).Exceeds config limit s) :
    ∃ t' s', Starts config (call env (.primitive p) args) s t' s' ∧
      t'.Exceeds config limit s' := by
  simp only [exceeds_call_iff, callValue] at h
  rcases Primitive.called_or_refused (SmallLisp.call config 0) env p args with
    ⟨_, -, hcalled⟩ | href
  · cases hcalled with
    | operation meaning hrun =>
      simp only [Primitive.callPrimitive_of_operation meaning hrun] at h
      obtain ⟨answer, -, h⟩ := EvalM.Exceeds.of_orFault_bind h
      cases EvalM.Exceeds.not_of_ok (Settles.of_forall fun _ => rfl) h
    | application f list => exact exists_starts_of_exceeds_applied h
    | mapping f list lists => exact exists_starts_of_exceeds_mapped h
    | printing v => cases EvalM.Exceeds.not_of_ok (Settles.of_forall fun _ => rfl) h
  · simp only [Primitive.callPrimitive_of_refused href] at h
    exact absurd h (EvalM.Exceeds.not_of_error fun _ => rfl)

/-- Inside a call of a closure that is within the limit, the limit ends the body. -/
lemma exceeds_closure_iff {env : FrameId} {id : Identity} {c : Closure} {args : List Value}
    (count : args.length = c.params.length) (free : config.reached? s.depth = none) :
    (call env (.closure id c) args).Exceeds config limit s ↔
      (eval ⟨c.source, s.store.next⟩ c.body).Exceeds config limit (config.enter env c args s) := by
  constructor
  · rintro ⟨u, hu⟩
    obtain ⟨o, ho, hleave⟩ := (ends_closure_iff count free).mp hu
    cases o with
    | error e t =>
      cases hleave
      exact ⟨t, ho⟩
    | ok | exhausted => cases hleave
  · rintro ⟨u, hu⟩
    exact ⟨_, (ends_closure_iff count free).mpr ⟨_, hu, rfl⟩⟩

/-- A call of a closure, with the right number of arguments, in a state in which as many calls are
in progress as the limit allows. -/
structure AtLimit (config : Config) (limit : Nat) (t : Task) (s : State) : Prop where
  call : ∃ env id c args, t = .call env (.closure id c) args ∧ args.length = c.params.length
  reached : config.reached? s.depth = some limit

lemma exceeds_of_atLimit {t : Task} (h : t.AtLimit config limit s) :
    t.Exceeds config limit s := by
  obtain ⟨⟨env, id, c, args, rfl, count⟩, reached⟩ := h
  exact ⟨s, ends_call_iff.mpr (.of_forall fun n => callClosure_of_reached count reached)⟩

/-- If the limit ends a task, then either the task is the call at which the limit is reached, or
the limit ends something that the task starts. -/
theorem atLimit_or_exists_starts {t : Task} (h : t.Exceeds config limit s) :
    t.AtLimit config limit s ∨
      ∃ t' s', Starts config t s t' s' ∧ t'.Exceeds config limit s' := by
  cases t with
  | eval site form =>
    have heval := exceeds_eval_iff.mp h
    cases form with
    | int | float | str =>
      cases EvalM.Exceeds.not_of_ok (Settles.of_forall fun _ => rfl) heval
    | symbol name span =>
      cases hname : s.store.lookup site.env name with
      | some value =>
        cases EvalM.Exceeds.not_of_ok (.of_forall fun _ => resolve_of_some hname) heval
      | none =>
        exact absurd heval (EvalM.Exceeds.not_of_error fun _ => resolve_of_none hname)
    | list items span =>
      cases hshape : Shape.ofList span items with
      | ok shape => exact .inr (exists_starts_of_exceeds_shape hshape h)
      | error e =>
        simp only [evalForm, hshape] at heval
        exact absurd heval (EvalM.Exceeds.not_of_error fun _ => rfl)
  | sequence site forms => exact .inr (exists_starts_of_exceeds_sequence h)
  | call env callee args =>
    have hcall := exceeds_call_iff.mp h
    cases callee with
    | primitive p => exact .inr (exists_starts_of_exceeds_primitive h)
    | closure id c =>
      by_cases hcount : args.length = c.params.length
      · cases hfree : config.reached? s.depth with
        | none => exact .inr ⟨_, _, .body hcount hfree, (exceeds_closure_iff hcount hfree).mp h⟩
        | some n =>
          obtain ⟨u, hu⟩ := hcall
          cases hu.unique (.of_forall fun _ => callClosure_of_reached hcount hfree)
          exact .inl ⟨⟨env, id, c, args, rfl, hcount⟩, hfree⟩
      · exact absurd hcall (EvalM.Exceeds.not_of_error fun _ => callClosure_of_count hcount)
    | _ => exact absurd hcall (EvalM.Exceeds.not_of_error fun _ => rfl)

end Task

/-! ### With a limit and without -/

/-- Mapping over lists calls the procedure with the columns of the lists. -/
lemma mapBody_list {call : FrameId → Value → List Value → EvalM Value} {env : FrameId} {f : Value}
    {id : Identity} {first lists : List Value} {others : List (List Value)} (proc : f.isProcedure)
    (rows : lists.mapM Lists.argument = .ok others) :
    mapBody call env f (.list id first) lists =
      each (call env f) (Lists.columns first others) >>= fun results =>
        update (·.newList results) := by
  rw [mapBody, if_pos proc, each_orFault, rows]
  rfl

section Unlimited

variable [Machine] {scoping : Scoping} {limit : Nat} {t t' : Task} {s s' u : State} {value : Value}

/-- The evaluators under a limit and without one. -/
lemma cut_unlimited (scoping : Scoping) (limit : Nat) :
    Congruence ⟨scoping, some limit⟩ ⟨scoping, none⟩ fun _ m m' =>
      m.Cut limit m' ∧ m'.Keeps fun s t => s.output.Extends t.output :=
  Cut.congruence scoping nofun

lemma cut_eval (scoping : Scoping) (limit : Nat) (site : Site) (n : Nat) (form : Form) :
    (eval ⟨scoping, some limit⟩ n site form).Cut limit (eval ⟨scoping, none⟩ n site form) :=
  (((cut_unlimited scoping limit).evaluator (Nat.le_refl n)).1 site form).1

lemma cut_each_eval (scoping : Scoping) (limit : Nat) (site : Site) (forms : List Form) (n : Nat) :
    (each (eval ⟨scoping, some limit⟩ n site) forms).Cut limit
      (each (eval ⟨scoping, none⟩ n site) forms) := by
  have h := cut_unlimited scoping limit
  exact (h.each ((h.evaluator (Nat.le_refl n)).1 site) forms).1

lemma cut_each_call (scoping : Scoping) (limit : Nat) (env : FrameId) (f : Value)
    (columns : List (List Value)) (n : Nat) :
    (each (call ⟨scoping, some limit⟩ n env f) columns).Cut limit
      (each (call ⟨scoping, none⟩ n env f) columns) := by
  have h := cut_unlimited scoping limit
  exact (h.each ((h.evaluator (Nat.le_refl n)).2 env f) columns).1

lemma Task.Ends.unlimited {site : Site} {form : Form}
    (h : (Task.eval site form).Ends ⟨scoping, some limit⟩ s (.ok value u)) :
    (Task.eval site form).Ends ⟨scoping, none⟩ s (.ok value u) :=
  h.of_cut (fun n => cut_eval scoping limit site n form) nofun

/-- What is started under a limit is started without it. -/
theorem Starts.unlimited (h : Starts ⟨scoping, some limit⟩ t s t' s') :
    Starts ⟨scoping, none⟩ t s t' s' := by
  cases h with
  | condition shape => exact .condition shape
  | consequent shape tested true => exact .consequent shape tested.unlimited true
  | alternative shape tested false => exact .alternative shape tested.unlimited false
  | defined shape => exact .defined shape
  | sequence shape => exact .sequence shape
  | member done => exact .member (done.of_cut (cut_each_eval scoping limit _ _) nofun)
  | head shape => exact .head shape
  | argument shape called proc done =>
    exact .argument shape called.unlimited proc
      (done.of_cut (cut_each_eval scoping limit _ _) nofun)
  | callee shape called proc done =>
    exact .callee shape called.unlimited proc (done.of_cut (cut_each_eval scoping limit _ _) nofun)
  | body count free => exact .body count rfl
  | applied proc => exact .applied proc
  | mapped proc rows columns done =>
    exact .mapped proc rows columns (done.of_cut (cut_each_call scoping limit _ _ _) nofun)

lemma Task.Ends.limited {site : Site} {form : Form}
    (h : (Task.eval site form).Ends ⟨scoping, none⟩ s (.ok value u)) :
    (Task.eval site form).Ends ⟨scoping, some limit⟩ s (.ok value u) ∨
      (Task.eval site form).Exceeds ⟨scoping, some limit⟩ limit s :=
  h.cut_or_exceeds (fun n => cut_eval scoping limit site n form)
    (Task.exists_ends_of_limit scoping limit _ s)

lemma limited_each_eval {site : Site} {forms : List Form} {values : List Value}
    (h : Settles (fun n => each (eval ⟨scoping, none⟩ n site) forms) s (.ok values u)) :
    Settles (fun n => each (eval ⟨scoping, some limit⟩ n site) forms) s (.ok values u) ∨
      EvalM.Exceeds limit (fun n => each (eval ⟨scoping, some limit⟩ n site) forms) s :=
  h.cut_or_exceeds (cut_each_eval scoping limit site forms)
    (Settles.exists_each forms s fun _ form _ _ u _ _ =>
      Task.exists_ends_of_limit scoping limit (.eval site form) u)

lemma limited_each_call {env : FrameId} {f : Value} {columns : List (List Value)}
    {values : List Value}
    (h : Settles (fun n => each (call ⟨scoping, none⟩ n env f) columns) s (.ok values u)) :
    Settles (fun n => each (call ⟨scoping, some limit⟩ n env f) columns) s (.ok values u) ∨
      EvalM.Exceeds limit (fun n => each (call ⟨scoping, some limit⟩ n env f) columns) s :=
  h.cut_or_exceeds (cut_each_call scoping limit env f columns)
    (Settles.exists_each columns s fun _ column _ _ u _ _ =>
      Task.exists_ends_of_limit scoping limit (.call env f column) u)

/-- The limit ends a task, if it would end something that the task starts without a limit. -/
theorem Starts.exceeds (h : Starts ⟨scoping, none⟩ t s t' s')
    (hexceeds : t'.Exceeds ⟨scoping, some limit⟩ limit s') :
    t.Exceeds ⟨scoping, some limit⟩ limit s := by
  have hrising := rising_eval ⟨scoping, some limit⟩
  cases h with
  | condition shape => exact (Task.exceeds_list_iff shape).mpr hexceeds.bind
  | consequent shape tested htrue =>
    rw [Task.exceeds_list_iff shape]
    rcases tested.limited with h | h
    · refine .bind_of_ok h ?_
      simp only [htrue, if_true]
      exact hexceeds
    · exact h.bind
  | alternative shape tested hfalse =>
    rw [Task.exceeds_list_iff shape]
    rcases tested.limited with h | h
    · refine .bind_of_ok h ?_
      simp only [hfalse, Bool.false_eq_true, if_false]
      exact hexceeds
    · exact h.bind
  | defined shape => exact (Task.exceeds_list_iff shape).mpr hexceeds.bind
  | sequence shape => exact (Task.exceeds_list_iff shape).mpr hexceeds
  | @member site before form after s values u done =>
    rw [Task.exceeds_sequence_iff]
    rcases limited_each_eval done with h | h
    · exact .each_append (hrising site) h hexceeds
    · exact h.each_of_append (hrising site)
  | head shape => exact (Task.exceeds_list_iff shape).mpr hexceeds.bind
  | @argument site _ _ _ before form after _ callee _ _ _ shape called proc done =>
    rw [Task.exceeds_list_iff shape]
    rcases called.limited with h | h
    · refine .bind_of_ok h ?_
      simp only [proc, if_true]
      rcases limited_each_eval done with h | h
      · exact (EvalM.Exceeds.each_append (hrising site) h hexceeds).bind
      · exact (h.each_of_append (hrising site)).bind
    · exact h.bind
  | callee shape called proc done =>
    rw [Task.exceeds_list_iff shape]
    rcases called.limited with h | h
    · refine .bind_of_ok h ?_
      simp only [proc, if_true]
      rcases limited_each_eval done with h | h
      · exact .bind_of_ok h hexceeds
      · exact h.bind
    · exact h.bind
  | @body env id c args s count free =>
    -- in the limited evaluation the limit may be reached by this call already
    cases hfree : Config.reached? ⟨scoping, some limit⟩ s.depth with
    | none => exact (Task.exceeds_closure_iff count hfree).mpr hexceeds
    | some n =>
      obtain rfl : limit = n := Option.some.inj (Option.filter_eq_some_iff.mp hfree).1
      exact Task.exceeds_of_atLimit ⟨⟨env, id, c, args, rfl, count⟩, hfree⟩
  | applied proc =>
    rw [Task.exceeds_call_iff]
    change EvalM.Exceeds limit (fun n => applyBody _ _ _ _) s
    simp only [applyBody, proc, if_true]
    exact hexceeds
  | @mapped env f id first lists others before column after _ values u proc rows columns done =>
    rw [Task.exceeds_call_iff]
    change EvalM.Exceeds limit (fun n => mapBody _ _ _ _ _) s
    simp only [mapBody_list proc rows, columns]
    rcases limited_each_call done with h | h
    · exact (EvalM.Exceeds.each_append (rising_call _ env f) h hexceeds).bind
    · exact (h.each_of_append (rising_call _ env f)).bind

end Unlimited

/-! ## Reaching a call -/

/-- The calls of closures that are in progress because of the task itself. -/
def Task.closureCalls : Task → Nat
  | call _ (.closure ..) _ => 1
  | _ => 0

/-- In the course of a task that is begun in the state `s₀`, the task `t` is begun in the state
`s`, inside `k` calls of closures. -/
inductive Reaches [Machine] (config : Config) (t₀ : Task) (s₀ : State) : Nat → Task → State → Prop
  | here : Reaches config t₀ s₀ 0 t₀ s₀
  | step {k t s t' s'} (reached : Reaches config t₀ s₀ k t s) (starts : Starts config t s t' s') :
      Reaches config t₀ s₀ (k + t.closureCalls) t' s'

/-- What is begun in the course of a task that is itself begun in the course of another one. -/
lemma Reaches.trans [Machine] {config : Config} {t₀ t t' : Task} {s₀ s s' : State} {k m : Nat}
    (h : Reaches config t₀ s₀ k t s) (h' : Reaches config t s m t' s') :
    Reaches config t₀ s₀ (k + m) t' s' := by
  induction h' with
  | here => exact h
  | step _ starts ih =>
    rw [← Nat.add_assoc]
    exact .step ih starts

/-- Only the body of a closure is begun with one more call in progress. -/
lemma Starts.depth_eq [Machine] {config : Config} {t t' : Task} {s s' : State}
    (h : Starts config t s t' s') : s'.depth = s.depth + t.closureCalls := by
  have heach {s u : State} {site : Site} {forms : List Form} {values : List Value}
      (h : Settles (fun k => each (eval config k site) forms) s (.ok values u)) :
      u.depth = s.depth :=
    h.depth_eq_of_each fun k => (respected_depth.keeps _ k).1 site
  cases h with
  | condition | defined | sequence | head | body | applied => rfl
  | consequent shape tested | alternative shape tested => exact tested.depth_eq
  | member done => exact heach done
  | argument shape called proc done | callee shape called proc done =>
    exact (heach done).trans called.depth_eq
  | mapped proc rows columns done =>
    exact done.depth_eq_of_each fun k => (respected_depth.keeps _ k).2 _ _

namespace Reaches

variable {config : Config} {t₀ t : Task} {s₀ s : State} {k : Nat}

/-- What evaluations keep holds up to all that is begun on the way, if it holds when the body of a
closure is entered. -/
lemma keeps [Machine] {R : State → State → Prop} (h : Respected R)
    (henter : ∀ env c args s, R s (config.enter env c args s))
    (hreaches : Reaches config t₀ s₀ k t s) : R s₀ s := by
  induction hreaches with
  | here => exact h.refl s₀
  | step _ starts ih => exact h.trans _ _ _ ih (starts.keeps h henter)

/-- The counter of the evaluator counts the calls in progress. -/
theorem depth_eq [Machine] (h : Reaches config t₀ s₀ k t s) : s.depth = s₀.depth + k := by
  induction h with
  | here => rfl
  | step _ starts ih => rw [starts.depth_eq, ih, Nat.add_assoc]

end Reaches

section Limited

variable [Machine] {scoping : Scoping} {limit : Nat} {t₀ t : Task} {s₀ s : State} {k : Nat}

/-- Under a limit, nothing is begun inside more calls than the limit allows. -/
lemma Starts.depth_le {t' : Task} {s' : State} (h : Starts ⟨scoping, some limit⟩ t s t' s')
    (hs : s.depth ≤ limit) : s'.depth ≤ limit := by
  have hdepth := h.depth_eq
  cases h with
  | body count free => exact (Config.reached?_eq_none_iff rfl).mp free
  | _ => exact hdepth.trans_le hs

/-- If the limit would end a task that is reached without a limit, then a call is reached that is
at the limit. -/
lemma Reaches.exists_atLimit (h : Reaches ⟨scoping, none⟩ t₀ s₀ k t s)
    (hexceeds : t.Exceeds ⟨scoping, some limit⟩ limit s) (hs : s.depth ≤ limit) :
    ∃ k t s, Reaches ⟨scoping, none⟩ t₀ s₀ k t s ∧ t.AtLimit ⟨scoping, some limit⟩ limit s ∧
      s.depth ≤ limit := by
  -- what a task starts under the limit is smaller, and without the limit it is started as well
  induction hm : t.measure limit s using WellFoundedLT.induction generalizing t s k with
  | ind m ih =>
    subst hm
    rcases Task.atLimit_or_exists_starts hexceeds with hat | ⟨t', s', hstarts, hexceeds'⟩
    · exact ⟨k, t, s, h, hat, hs⟩
    · exact ih _ hstarts.measure_lt (h.step hstarts.unlimited) hexceeds' (hstarts.depth_le hs) rfl

/-- If the limit would end a task that is reached without a limit, then it ends the task that was
begun with. -/
lemma Reaches.exceeds (h : Reaches ⟨scoping, none⟩ t₀ s₀ k t s)
    (hexceeds : t.Exceeds ⟨scoping, some limit⟩ limit s) :
    t₀.Exceeds ⟨scoping, some limit⟩ limit s₀ := by
  induction h with
  | here => exact hexceeds
  | step _ starts ih => exact ih (starts.exceeds hexceeds)

/-- The limit ends an evaluation exactly if the evaluation without a limit reaches a call of a
closure, with the right number of arguments, inside as many calls as the limit allows. -/
theorem exceeds_iff_reaches (hs₀ : s₀.depth = 0) :
    t₀.Exceeds ⟨scoping, some limit⟩ limit s₀ ↔
      ∃ env id c args s, args.length = c.params.length ∧
        Reaches ⟨scoping, none⟩ t₀ s₀ limit (.call env (.closure id c) args) s := by
  constructor
  · intro h
    obtain ⟨k, t, s, hreaches, hat, hs⟩ :=
      (Reaches.here : Reaches ⟨scoping, none⟩ t₀ s₀ 0 t₀ s₀).exists_atLimit h
        (hs₀ ▸ Nat.zero_le limit)
    obtain ⟨⟨env, id, c, args, rfl, count⟩, reached⟩ := hat
    have hle : limit ≤ s.depth := by
      simpa [Config.reached?] using (Option.filter_eq_some_iff.mp reached).2
    obtain rfl : limit = k := by
      have hdepth := hreaches.depth_eq
      omega
    exact ⟨env, id, c, args, s, count, hreaches⟩
  · rintro ⟨env, id, c, args, s, count, hreaches⟩
    refine hreaches.exceeds (Task.exceeds_of_atLimit ⟨⟨env, id, c, args, rfl, count⟩, ?_⟩)
    have hdepth : s.depth = limit := by rw [hreaches.depth_eq, hs₀, Nat.zero_add]
    simp [Config.reached?, hdepth]

end Limited

/-! ## Sources -/

namespace Run

variable {limit : Nat} {o o' : Outcome Value} {r r' : Run}

/-- From an evaluation that is cut off there comes what comes from the other one, unless the error
is that of the limit. -/
lemma ofOutcome_of_cut (hcut : o.Cut limit o') (h : ofOutcome o = some r)
    (hr : r.result ≠ .error (.eval (.depthExceeded limit))) : ofOutcome o' = some r := by
  rcases hcut with rfl | rfl | ⟨t, rfl, -⟩
  · cases h
  · exact h
  · cases h
    exact absurd rfl hr

/-- An evaluation that is cut off has printed the beginning of what the other one prints. -/
lemma printed_of_cut (hcut : o.Cut limit o') (h : ofOutcome o = some r)
    (h' : ofOutcome o' = some r') : ∃ more, r'.printed = r.printed ++ more := by
  rcases hcut with rfl | rfl | ⟨t, rfl, hmore⟩
  · cases h
  · rw [Option.some.inj (h.symm.trans h')]
    exact ⟨"", by simp⟩
  · cases h
    rcases ofOutcome_eq_some h' with ⟨value, u, rfl, rfl⟩ | ⟨e, u, rfl, rfl⟩
    all_goals exact (hmore u rfl).captured

variable {scoping : Scoping} {forms : List Form} {fuel : Nat}

/-- The error of the limit is what comes of forms that the limit ends. -/
lemma exceeds_iff_ofForms [Machine] (h : ofForms fuel ⟨scoping, some limit⟩ forms = some r) :
    r.result = .error (.eval (.depthExceeded limit)) ↔
      (Task.sequence site forms).Exceeds ⟨scoping, some limit⟩ limit start := by
  have hrising := Task.rising_run ⟨scoping, some limit⟩ (.sequence site forms)
  constructor
  · intro hr
    rcases ofOutcome_eq_some h with ⟨value, u, ho, rfl⟩ | ⟨e, u, ho, rfl⟩
    · cases hr
    · cases hr
      exact ⟨u, hrising.settles ho nofun⟩
  · rintro ⟨u, hu⟩
    rcases ofOutcome_eq_some h with ⟨value, t, ho, rfl⟩ | ⟨e, t, ho, rfl⟩
    · cases hu.unique (hrising.settles ho nofun)
    · cases hu.unique (hrising.settles ho nofun)
      rfl

/-- The forms of a source under a limit and under a higher one. -/
lemma cut_ofForms [Machine] {higher : Option Nat} (h : ∀ n ∈ higher, limit ≤ n) {fuel' : Nat}
    (hfuel : fuel ≤ fuel') :
    ((Task.sequence site forms).run ⟨scoping, some limit⟩ fuel start).Cut limit
      ((Task.sequence site forms).run ⟨scoping, higher⟩ fuel' start) := by
  have hcut := Cut.congruence scoping h
  exact (hcut.sequence ((hcut.evaluator hfuel).1 site) forms .nil).1 start

/-- Forms have a result under a limit. -/
lemma exists_ofForms [Machine] (scoping : Scoping) (limit : Nat) (forms : List Form) :
    ∃ fuel r, ofForms fuel ⟨scoping, some limit⟩ forms = some r := by
  obtain ⟨o, ho⟩ := Task.exists_ends_of_limit scoping limit (.sequence site forms) start
  obtain ⟨fuel, hfuel⟩ := ho.exists_bound
  refine ⟨fuel, ?_⟩
  simp only [ofForms, hfuel]
  cases o with
  | ok | error => exact ⟨_, rfl⟩
  | exhausted => exact absurd rfl ho.1

/-- Let `m` be at most the limit of another evaluation of the same source, or that one have no
limit.  Under the limit `m` there is a result.  It is that of the other evaluation, with the same
printed text, unless it is the error of the limit; the printed text is the beginning of that of the
other evaluation in any case.  And the error of the limit is the result exactly if the evaluation
without a limit reaches a call of a closure, with the right number of arguments, inside `m` other
calls of closures. -/
theorem ofSource_cut [Machine] (scoping : Scoping) (m : Nat) (limit : Option Nat)
    (h : ∀ n ∈ limit, m ≤ n) (source : String) :
    (∃ fuel r, ofSource fuel ⟨scoping, some m⟩ source = some r) ∧
    ∀ fuel r, ofSource fuel ⟨scoping, some m⟩ source = some r →
      (r.result ≠ .error (.eval (.depthExceeded m)) →
        ofSource fuel ⟨scoping, limit⟩ source = some r) ∧
      (∀ fuel' r', ofSource fuel' ⟨scoping, limit⟩ source = some r' →
        ∃ more, r'.printed = r.printed ++ more) ∧
      (r.result = .error (.eval (.depthExceeded m)) ↔
        ∃ forms, read source = .ok forms ∧ ∃ env id c args s, args.length = c.params.length ∧
          Reaches ⟨scoping, none⟩ (.sequence site forms) start m
            (.call env (.closure id c) args) s) := by
  simp only [ofSource_eq]
  cases hread : read source with
  | error e =>
    refine ⟨⟨0, _, rfl⟩, ?_⟩
    rintro fuel r ⟨⟩
    refine ⟨fun _ => rfl, ?_, ?_, ?_⟩
    · rintro fuel' r' ⟨⟩
      exact ⟨"", by simp⟩
    · intro he
      cases he
      exact absurd rfl (ne_eval_of_read hread _)
    · rintro ⟨forms, ⟨⟩, -⟩
  | ok forms =>
    refine ⟨exists_ofForms scoping m forms, fun fuel r hr => ⟨?_, ?_, ?_⟩⟩
    · exact ofOutcome_of_cut (cut_ofForms h (Nat.le_refl fuel)) hr
    · intro fuel' r' hr'
      exact printed_of_cut (cut_ofForms h (Nat.le_max_left fuel fuel')) hr
        (ofForms_of_le (Nat.le_max_right fuel fuel') hr')
    · rw [exceeds_iff_ofForms hr, exceeds_iff_reaches rfl]
      constructor
      · exact fun hreaches => ⟨forms, rfl, hreaches⟩
      · rintro ⟨_, ⟨⟩, hreaches⟩
        exact hreaches

section

open scoped Machine

/-- In this source one call is made inside another one.  A limit of a single call is reached, after
one of the two lines is printed. -/
theorem ofSource_cut_nested :
    let source := "((lambda (x) (begin (write-line x) ((lambda () (write-line x))))) 1)"
    (∀ n ∈ some 2, 1 ≤ n) ∧ ∃ r r', ofSource 9 ⟨.lexical, some 1⟩ source = some r ∧
      ofSource 9 ⟨.lexical, some 2⟩ source = some r' ∧
        r.error? = some (.eval (.depthExceeded 1)) ∧ r.printed = "1\n" ∧
          r'.error? = none ∧ r'.printed = "1\n1\n" ∧ (∃ more, r'.printed = r.printed ++ more) ∧
            ∃ forms, read source = .ok forms ∧ ∃ env id c args s, args.length = c.params.length ∧
              Reaches ⟨.lexical, none⟩ (.sequence site forms) start 1
                (.call env (.closure id c) args) s := by
  intro source
  have hlimited : (ofSource 9 ⟨.lexical, some 1⟩ source).map (fun r => (r.error?, r.printed)) =
      some (some (.eval (.depthExceeded 1)), "1\n") := by
    decide +kernel
  have hhigher : (ofSource 9 ⟨.lexical, some 2⟩ source).map (fun r => (r.error?, r.printed)) =
      some (none, "1\n1\n") := by
    decide +kernel
  obtain ⟨r, hr, hlimited⟩ := Option.map_eq_some_iff.mp hlimited
  obtain ⟨r', hr', hhigher⟩ := Option.map_eq_some_iff.mp hhigher
  obtain ⟨herror, hprinted⟩ := Prod.mk.inj hlimited
  obtain ⟨herror', hprinted'⟩ := Prod.mk.inj hhigher
  have hle : ∀ n ∈ some 2, 1 ≤ n := by decide
  obtain ⟨-, hmore, hreaches⟩ := (ofSource_cut .lexical 1 (some 2) hle source).2 9 r hr
  exact ⟨hle, r, r', hr, hr', herror, hprinted, herror', hprinted', hmore 9 r' hr',
    hreaches.mp (error?_eq_some_iff.mp herror)⟩

end

end Run

end SmallLisp
