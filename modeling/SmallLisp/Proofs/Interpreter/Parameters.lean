import SmallLisp.Proofs.Evaluation.Parameters
import SmallLisp.Proofs.Interpreter.Sessions

/-!
# Calls bind parameters by their places

The owner of a state may hand over values, with the closures in them.  As long as these closures
come from `lambda` forms (`Operation.Made`), so do all closures that are ever bound, passed to a
procedure or given back (`AtHand.madeIn`).  Whatever is done in a session, a closure at hand
therefore has distinct parameters, and was made in a frame that exists.  This is all that a call
needs to bind each parameter to the argument at its place, and to see everything else as it is seen
from the frame of the closure or, under flat scoping, from that of the call (`call_binds_params`).

Running sources is a session of this kind, because nothing is handed over at all
(`Interpreter.Ran.session`), and so are all evaluations that this consists of
(`Interpreter.Ran.begun`).
-/

namespace SmallLisp

/-! ## Sessions that hand over closures of `lambda` forms only -/

/-- All closures in the value come from `lambda` forms. -/
def Value.Made (v : Value) : Prop := ∀ c ∈ v.closures, c.Made

/-- All values that the task begins with are made of closures from `lambda` forms. -/
def Task.Made : Task → Prop
  | eval .. | sequence .. => True
  | call _ callee args => ∀ v ∈ callee :: args, v.Made

/-- All values that the operation hands over are made of closures from `lambda` forms. -/
def Operation.Made : Operation → Prop
  | new | copy _ | other => True
  | inside _ entries | snapshot _ entries => ∀ entry ∈ entries, entry.2.Made
  | define _ _ value => value.Made
  | evaluate _ task => task.Made

variable {s t : State} {v : Value} {c : Closure}

lemma Value.Made.madeIn {n : Nat} (h : v.Made) (hwithin : v.Within n) :
    ∀ c ∈ v.closures, c.MadeIn n :=
  fun c hc => ⟨hwithin c hc, h c hc⟩

lemma Task.Made.invariant {n : Nat} {task : Task} (h : task.Made) (hwithin : task.Within n) :
    Invariant.made.task n task := by
  cases task with
  | eval site form => exact hwithin
  | sequence site forms => exact fun _ _ => hwithin
  | call env callee args => exact fun v hv => (h v hv).madeIn (hwithin.2 v hv)

/-- An operation keeps it that all closures come from `lambda` forms. -/
lemma Operation.Leads.bindsMade [Machine] {op : Operation} (h : op.Leads s t)
    (hop : op.Within s.store.next) (hmade : op.Made) (hs : s.store.BindsMade) :
    t.store.BindsMade := by
  cases op with
  | new =>
    obtain rfl := h
    exact hs.push fun _ _ hx => by cases hx
  | inside env entries =>
    obtain rfl := h
    exact hs.push
      (Store.Binds.inside fun entry hentry => (hmade entry hentry).madeIn (hop.2 entry hentry))
  | snapshot env entries =>
    obtain rfl := h
    exact hs.push
      (Store.Binds.snapshot hs fun entry hentry =>
        (hmade entry hentry).madeIn (hop.2 entry hentry))
  | copy env =>
    obtain rfl := h
    exact hs.push fun x v hx => hs env _ x v (Store.getElem?_copy hop) hx
  | define env name value =>
    obtain rfl := h
    exact hs.define (hmade.madeIn hop.2)
  | evaluate config task =>
    obtain ⟨n, -, -, ht⟩ :=
      (Invariant.kept_made config).passes (hmade.invariant hop) ⟨rfl, hs⟩ h
    exact ht
  | other =>
    rw [show t.store = s.store from h]
    exact hs

/-- If all values that are handed over are made of closures from `lambda` forms, then so are all
values that are bound. -/
theorem Session.bindsMade [Machine] (h : Session Operation.Made s t) (hs : s.store.BindsMade) :
    t.store.BindsMade := by
  induction h with
  | refl => exact hs
  | tail _ hstep ih =>
    obtain ⟨op, hmade, hop, hleads⟩ := hstep
    exact hleads.bindsMade hop hmade ih

/-! ## Values at hand -/

/-- At some point of such a session, the task is begun. -/
def Task.Begun [Machine] (config : Config) (task : Task) (s : State) : Prop :=
  ∃ s₀ task₀ k, Session Operation.Made {} s₀ ∧ task₀.Made ∧ task₀.Within s₀.store.next ∧
    Reaches config task₀ s₀ k task s

/-- At some point of such a session, the value is there: bound in a frame, passed to a procedure,
given back by an evaluation, or kept by the owner from an earlier point. -/
inductive AtHand [Machine] : State → Value → Prop
  | bound {s : State} {id : FrameId} {frame : Frame} {x : String} {v : Value}
      (session : Session Operation.Made {} s) (found : s.store.frames[id]? = some frame)
      (binds : frame.bindings.find? x = some v) : AtHand s v
  | passed {config : Config} {env : FrameId} {callee : Value} {args : List Value} {s : State}
      {v : Value} (begun : (Task.call env callee args).Begun config s)
      (mem : v ∈ callee :: args) : AtHand s v
  | result {config : Config} {task : Task} {n : Nat} {s t : State} {v : Value}
      (begun : task.Begun config s) (ended : task.run config n s = .ok v t) : AtHand t v
  | kept {s t : State} {v : Value} (earlier : AtHand s v) (session : Session Operation.Made s t) :
      AtHand t v

namespace Task.Begun

variable {config : Config} {task : Task}

/-- What a task begins with was made by `lambda` forms. -/
lemma invariant [Machine] (h : task.Begun config s) :
    ∃ n, Invariant.made.task n task ∧ Invariant.made.store n s.store := by
  obtain ⟨s₀, task₀, k, hsession, hmade, hwithin, hreaches⟩ := h
  have hs₀ : s₀.store.BindsMade := hsession.bindsMade .empty
  obtain ⟨n, -, htask, hs⟩ :=
    (Invariant.kept_made config).reaches (hmade.invariant hwithin) ⟨rfl, hs₀⟩ hreaches
  exact ⟨n, htask, hs⟩

/-- All states that a task passes are points of a session themselves. -/
lemma session [Machine] (h : task.Begun config s) (hpasses : task.Passes config s t) :
    Session Operation.Made {} t := by
  obtain ⟨s₀, task₀, k, hsession, hmade, hwithin, hreaches⟩ := h
  have hpasses₀ : task₀.Passes config s₀ t := by
    cases hpasses with
    | begins reached => exact .begins (hreaches.trans reached)
    | ends reached ended => exact .ends (hreaches.trans reached) ended
  exact hsession.trans (Session.of_leads (.evaluate config task₀) hmade hwithin hpasses₀)

end Task.Begun

namespace AtHand

/-- What is at hand is so at a point of a session. -/
lemma session [Machine] (h : AtHand s v) : Session Operation.Made {} s := by
  induction h with
  | bound session => exact session
  | passed begun => exact begun.session (.begins .here)
  | result begun ended => exact begun.session (.ends .here (by rw [ended]; rfl))
  | kept _ session ih => exact ih.trans session

/-- All closures in a value at hand were made by `lambda` forms, in frames that exist. -/
theorem madeIn [Machine] (h : AtHand s v) : ∀ c ∈ v.closures, c.MadeIn s.store.next := by
  induction h with
  | @bound s id frame x v session found binds =>
    exact session.bindsMade .empty id frame x v found binds
  | passed begun mem =>
    obtain ⟨n, htask, hnext, -⟩ := begun.invariant
    rw [hnext]
    exact htask _ mem
  | @result config task n s t v begun ended =>
    obtain ⟨m, htask, hs⟩ := begun.invariant
    obtain ⟨m', -, ⟨hnext, -⟩, hv⟩ := (Invariant.kept_made config).result n htask hs ended
    rw [hnext]
    exact hv
  | kept earlier session ih =>
    have hfounded := (earlier.session.founded .empty).1
    exact fun c hc => (ih c hc).mono (session.founded hfounded).2.next_le

end AtHand

/-! ## Calls -/

/-- A closure at hand has distinct parameters.  Let it be called in this state, under any settings
and from any frame, with any arguments.

If their number is that of the parameters, and the limit on calls in progress is not reached, then
the call evaluates the body of the closure in a new frame.  From this frame each parameter is seen
as the argument at its place; every other name is seen as it was, when the call began, from the
frame in which the closure was made, or under flat scoping from the frame of the call
(`Config.outer`).

With any other number of arguments the call fails and changes nothing, whether or not the limit is
reached. -/
theorem call_binds_params [Machine] (h : AtHand s v) (hc : c ∈ v.closures) :
    c.params.Nodup ∧
    ∀ (config : Config) (id : Identity) (env : FrameId) (args : List Value),
      (args.length = c.params.length →
        let frame := s.store.next
        let t := config.enter env c args s
        (config.reached? s.depth = none → ∀ n, call config (n + 1) env (.closure id c) args s =
          (eval config n ⟨c.source, frame⟩ c.body t).leave) ∧
        (∀ (i : Nat) x, c.params[i]? = some x → t.store.lookup frame x = args[i]?) ∧
        ∀ x, x ∉ c.params →
          t.store.lookup frame x = s.store.lookup (config.outer env c) x) ∧
      (args.length ≠ c.params.length → ∀ n, call config (n + 1) env (.closure id c) args s =
        .error (.arityMismatch "lambda" (.exactly c.params.length) args.length) s) := by
  obtain ⟨henv, hmade⟩ := h.madeIn c hc
  refine ⟨hmade.nodup, fun config id env args => ⟨fun hcount => ⟨fun hfree n => ?_,
    fun i x hx => ?_, fun x hx => ?_⟩, fun hcount n => Task.callClosure_of_count hcount⟩⟩
  · exact Task.callClosure_apply hcount hfree
  · exact Store.lookup_callFrame_param henv hmade.nodup hcount hx
  · exact Store.lookup_callFrame_of_not_mem henv hcount hx

/-! ## Running sources -/

namespace Interpreter

variable [Machine]

/-- Sources were run in the interpreter, any number of them, and nothing else was done with it. -/
inductive Ran : Interpreter → Prop
  | new (config : Config) (output : Output) : Ran (.new config output)
  | run {it it' : Interpreter} {fuel : Nat} {source : String} {result : Except Error Value}
      (before : it.Ran) (ran : it.run fuel source = some (result, it')) : Ran it'

/-- Running sources is a session in which no values are handed over. -/
theorem Ran.session {it : Interpreter} (h : it.Ran) :
    Session Operation.Made {} it.state ∧ it.global < it.state.store.next := by
  induction h with
  | new config output =>
    refine ⟨session_new_of config output trivial trivial ?_, ?_⟩
    · intro env name value hvalue c hc
      rw [hvalue] at hc
      cases hc
    · show 0 < Run.start.store.next
      rw [Lockstep.next_start]
      exact Nat.zero_lt_one
  | @run it it' fuel source result _ ran ih =>
    obtain ⟨hsession, hglobal⟩ := ih
    have hrun : Session Operation.Made it.state it'.state :=
      session_run_sequence trivial (fun _ _ => trivial) hglobal ran
    have hsame : it'.global = it.global := by
      obtain ⟨-, -, rfl⟩ | ⟨-, -, -, rfl, -⟩ := run_eq_some ran <;> rfl
    refine ⟨hsession.trans hrun, ?_⟩
    rw [hsame]
    exact Nat.lt_of_lt_of_le hglobal (hrun.founded (hsession.founded .empty).1).2.next_le

/-- Whatever is begun while a source is run is begun at a point of such a session. -/
theorem Ran.begun {it : Interpreter} {n k : Nat} {forms : List Form} {task : Task} {s : State}
    (h : it.Ran)
    (reaches : Reaches it.config (.sequence ⟨n, it.global⟩ forms) it.state.newSource.2 k task s) :
    task.Begun it.config s := by
  obtain ⟨hsession, hglobal⟩ := h.session
  have hread : Session Operation.Made it.state it.state.newSource.2 :=
    Session.of_leads .other trivial trivial rfl
  exact ⟨_, .sequence ⟨n, it.global⟩ forms, k, hsession.trans hread, trivial, hglobal, reaches⟩

end Interpreter

section

open scoped Machine

/-- The closure `f` of a source has the parameters `x` and `y`.  Called with two arguments it sees
each of them, and `f` as before; called with one it fails, also where no call is allowed at all. -/
theorem call_binds_params_two :
    ∃ r it v c, (Interpreter.new {} .silent).run 9 "(define f (lambda (x y) (f y x)))" =
        some (r, it) ∧
      it.state.store.lookup 0 "f" = some v ∧ c ∈ v.closures ∧ c.params = ["x", "y"] ∧
      (∀ config : Config,
        let t := config.enter 0 c [.int 1, .int 2] it.state
        t.store.lookup it.state.store.next "x" = some (.int 1) ∧
          t.store.lookup it.state.store.next "y" = some (.int 2) ∧
          t.store.lookup it.state.store.next "f" = some v) ∧
      ∀ n, call ⟨.flat, some 0⟩ (n + 1) 0 (.closure (.fresh 0) c) [.int 1] it.state =
        .error (.arityMismatch "lambda" (.exactly 2) 1) it.state := by
  have hrun : ((Interpreter.new {} .silent).run 9 "(define f (lambda (x y) (f y x)))").map (fun p =>
      (p.2.state.store.frames[0]?.bind (·.bindings.find? "f")).map fun v =>
        v.closures.map fun c => (c.params, c.env)) = some (some [(["x", "y"], 0)]) := by
    decide +kernel
  obtain ⟨⟨r, it⟩, hran, hshown⟩ := Option.map_eq_some_iff.mp hrun
  obtain ⟨v, hv, hclosures⟩ := Option.map_eq_some_iff.mp hshown
  obtain ⟨frame, hframe, hfind⟩ := Option.bind_eq_some_iff.mp hv
  obtain ⟨c, hclosure, hc⟩ := List.map_eq_singleton_iff.mp hclosures
  obtain ⟨hparams, henv⟩ := Prod.mk.inj hc
  have hmem : c ∈ v.closures := by rw [hclosure]; exact List.mem_singleton_self c
  have hlookup : it.state.store.lookup 0 "f" = some v := by
    rw [Store.lookup_of_frame hframe, hfind, Option.some_or]
  have hran' : it.Ran := .run (.new _ _) hran
  obtain ⟨-, hcalls⟩ := call_binds_params (.bound hran'.session.1 hframe hfind) hmem
  refine ⟨r, it, v, c, hran, hlookup, hmem, hparams, fun config => ?_, ?_⟩
  · obtain ⟨-, hbound, hseen⟩ :=
      (hcalls config (.fresh 0) 0 [.int 1, .int 2]).1 (by rw [hparams]; rfl)
    rw [hparams] at hbound hseen
    have houter : config.outer 0 c = 0 := by
      unfold Config.outer
      split
      · exact henv
      · rfl
    refine ⟨hbound 0 "x" rfl, hbound 1 "y" rfl, ?_⟩
    rw [hseen "f" (by decide), houter, hlookup]
  · have hfails := (hcalls ⟨.flat, some 0⟩ (.fresh 0) 0 [.int 1]).2 (by rw [hparams]; decide)
    rw [hparams] at hfails
    exact hfails

end

end SmallLisp
