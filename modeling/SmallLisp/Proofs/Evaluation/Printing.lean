import SmallLisp.Proofs.Evaluation.Journal

/-!
# What is printed

Evaluations print, and never look at what was printed.  So an evaluation ends in the same way
whatever its output is, up to the output itself (`IgnoresOutput.run`).

What is added to the output is told by the journal (`Task.recorded`): only calls of `write-line`
print, and each of them adds the line for its argument when it is begun.  The proof is in two steps.
Between two tasks that are begun by the same task, nothing is printed (`Chain`, `Task.steps`).  From
this it follows, by induction on the bound, that the entries of the whole journal follow each other
in the same way, but now with no room between them in which something could be printed that is not
listed (`Logged`).
-/

namespace SmallLisp

open EvalM Filter

variable {α β : Type} {config : Config} {n : Nat} {s u : State} {o o' o'' : Output}

/-! ## Nothing depends on the output -/

/-- The state with another output. -/
def State.withOutput (o : Output) (s : State) : State := { s with output := o }

/-- The outcome with another output. -/
def Outcome.withOutput (o : Output) : Outcome α → Outcome α
  | ok a s => ok a (s.withOutput o)
  | error e s => error e (s.withOutput o)
  | exhausted => exhausted

/-- With another output to begin with, the outcome is the same but for the output. -/
def EvalM.IgnoresOutput (m : EvalM α) : Prop :=
  ∀ s o, ∃ o', m (s.withOutput o) = (m s).withOutput o'

namespace IgnoresOutput

lemma bind {m : EvalM α} {f : α → EvalM β} (hm : m.IgnoresOutput)
    (hf : ∀ a, (f a).IgnoresOutput) : (m >>= f).IgnoresOutput := by
  intro s o
  change ∃ o', EvalM.bind m f (s.withOutput o) = (EvalM.bind m f s).withOutput o'
  obtain ⟨o₁, h₁⟩ := hm s o
  unfold EvalM.bind
  rw [h₁]
  cases m s with
  | ok a t => exact hf a t o₁
  | error e t => exact ⟨o₁, rfl⟩
  | exhausted => exact ⟨o, rfl⟩

lemma body {eval : Site → Form → EvalM Value} (heval : ∀ site form, (eval site form).IgnoresOutput)
    (config : Config) (env : FrameId) (c : Closure) (args : List Value) :
    (callClosure eval config env c args).IgnoresOutput := by
  intro s o
  by_cases hcount : args.length = c.params.length
  · cases hfree : config.reached? s.depth with
    | some limit =>
      have hfree' : config.reached? (s.withOutput o).depth = some limit := hfree
      rw [Task.callClosure_of_reached hcount hfree, Task.callClosure_of_reached hcount hfree']
      exact ⟨o, rfl⟩
    | none =>
      have hfree' : config.reached? (s.withOutput o).depth = none := hfree
      rw [Task.callClosure_apply hcount hfree, Task.callClosure_apply hcount hfree']
      obtain ⟨o', ho'⟩ := heval ⟨c.source, s.store.next⟩ c.body (config.enter env c args s) o
      refine ⟨o', ?_⟩
      change (eval ⟨c.source, s.store.next⟩ c.body
        ((config.enter env c args s).withOutput o)).leave = _
      rw [ho']
      cases eval ⟨c.source, s.store.next⟩ c.body (config.enter env c args s) <;> rfl
  · rw [Task.callClosure_of_count hcount, Task.callClosure_of_count hcount]
    exact ⟨o, rfl⟩

/-- What the evaluator consists of ignores the output. -/
lemma congruence [Machine] (config : Config) :
    Congruence config config fun _ m _ => m.IgnoresOutput where
  eval _ _ _ _ o := ⟨o, rfl⟩
  call _ _ _ _ _ o := ⟨o, rfl⟩
  pure _ _ o := ⟨o, rfl⟩
  fail _ _ o := ⟨o, rfl⟩
  resolve env name span s o := by
    refine ⟨o, ?_⟩
    simp only [EvalM.resolve, State.withOutput]
    cases s.store.lookup env name <;> rfl
  closure _ _ o := ⟨o, rfl⟩
  allocate answer s o := by
    refine ⟨o, ?_⟩
    cases answer <;> rfl
  define _ _ _ _ o := ⟨o, rfl⟩
  print v _ o := ⟨o.writeLine v.text, rfl⟩
  bind := bind
  body heval := body heval config

/-- Evaluations do not depend on the output. -/
theorem run [Machine] (config : Config) (n : Nat) (t : Task) : (t.run config n).IgnoresOutput := by
  have hcongruence := congruence config
  obtain ⟨heval, hcall⟩ := hcongruence.evaluator (Nat.le_refl n)
  cases t with
  | eval site form => exact heval site form
  | sequence site forms =>
    exact @Congruence.sequence _ _ _ _ hcongruence _ _ (eval config n site) (heval site) forms .nil
  | call env callee args => exact hcall env callee args

end IgnoresOutput

/-! ## Lines -/

/-- The text of each value, on a line of its own. -/
def linesOf : List Value → String
  | [] => ""
  | v :: rest => v.text ++ "\n" ++ linesOf rest

/-- The output after a line for each value. -/
def Output.writeAll (o : Output) (values : List Value) : Output :=
  values.foldl (fun o v => o.writeLine v.text) o

/-- A buffer keeps the lines. -/
lemma Output.writeAll_buffer (text : String) (values : List Value) :
    (buffer text).writeAll values = buffer (text ++ linesOf values) := by
  induction values generalizing text with
  | nil => simp [writeAll, linesOf]
  | cons v rest ih =>
    calc
      (buffer text).writeAll (v :: rest) = (buffer (text ++ v.text ++ "\n")).writeAll rest := rfl
      _ = buffer (text ++ v.text ++ "\n" ++ linesOf rest) := ih _
      _ = buffer (text ++ linesOf (v :: rest)) := by simp only [linesOf, String.append_assoc]

namespace Task

/-- The value that the task itself prints. -/
def written? : Task → Option Value
  | call _ (.primitive .writeLine) [v] => some v
  | _ => none

/-- The values that tasks print themselves. -/
def written (journal : List (Task × State)) : List Value := journal.filterMap (·.1.written?)

/-- The output when the task has printed what it prints itself. -/
def heard (t : Task) (o : Output) : Output :=
  match t.written? with
  | some v => o.writeLine v.text
  | none => o

/-- The evaluation, if what it consists of is nested at most `n` deep. -/
def step [Machine] (config : Config) (n : Nat) : Task → EvalM Value
  | eval site form => evalForm (SmallLisp.eval config n) (SmallLisp.call config n) site form
  | sequence site forms => .sequence (SmallLisp.eval config n site) .nil forms
  | call env callee args =>
    callValue (SmallLisp.eval config n) (SmallLisp.call config n) config env callee args

end Task

/-! ## From one task to the next one -/

/-- The tasks end, each of them is begun with the output with which the one before it ended, the
first one with `o`, and the last one ends with `o'`. -/
inductive Chain [Machine] (config : Config) (n : Nat) : Output → List (Task × State) → Output → Prop
  | nil (o : Output) : Chain config n o [] o
  | cons {t : Task} {s u : State} {rest : List (Task × State)} {o : Output}
      (ended : (t.run config n s).state? = some u) (chain : Chain config n u.output rest o) :
      Chain config n s.output ((t, s) :: rest) o

lemma Chain.append [Machine] {ps qs : List (Task × State)} (h : Chain config n o ps o')
    (h' : Chain config n o' qs o'') : Chain config n o (ps ++ qs) o'' := by
  induction h with
  | nil => exact h'
  | cons ended _ ih => exact .cons ended (ih h')

/-- When the evaluation ends, it has printed what the tasks in `parts` print, one after the other,
and a larger bound does not lead to others. -/
def Follows [Machine] (config : Config) (m : Nat → EvalM α)
    (parts : Nat → State → List (Task × State)) :
    Prop :=
  ∀ n s u, (m n s).state? = some u →
    Chain config n s.output (parts n s) u.output ∧ ∀ k, n ≤ k → parts k s = parts n s

lemma state?_leave {o : Outcome α} (h : o.leave.state? = some u) :
    ∃ v, o.state? = some v ∧ u = { v with depth := v.depth - 1 } := by
  cases o with
  | ok a v | error e v =>
    cases h
    exact ⟨v, rfl, rfl⟩
  | exhausted => cases h

/-- The output is the same in both states. -/
def State.SameOutput (s u : State) : Prop := u.output = s.output

instance : IsPreorder State State.SameOutput where
  refl _ := rfl
  trans _ _ _ h h' := h'.trans h

/-- A change of the state that is not one of the output. -/
lemma sameOutput_update {f : State → α × State} (h : ∀ s, (f s).2.output = s.output) :
    (EvalM.update f).Keeps State.SameOutput :=
  .update h

namespace Follows

variable [Machine]

variable {m : Nat → EvalM α} {f : Nat → α → EvalM β} {p : Nat → State → List (Task × State)}
variable {q : Nat → α → State → List (Task × State)}

lemma quiet (h : ∀ n, (m n).Keeps State.SameOutput) : Follows config m fun _ _ => [] := by
  intro n s u hu
  have houtput : u.output = s.output := h n s u hu
  rw [houtput]
  exact ⟨.nil s.output, fun _ _ => rfl⟩

lemma task (t : Task) : Follows config (fun n => t.run config n) fun _ s => [(t, s)] := by
  intro n s u hu
  exact ⟨.cons hu (.nil u.output), fun _ _ => rfl⟩

lemma bind (hm : Follows config m p) (hrising : Rising m)
    (hf : ∀ a, Follows config (fun n => f n a) fun n => q n a) :
    Follows config (fun n => m n >>= f n) fun n s => p n s ++ (m n).after s (q n) := by
  intro n s u hu
  change (EvalM.bind (m n) (f n) s).state? = some u at hu
  unfold EvalM.bind at hu
  cases ho : m n s with
  | ok a t =>
    rw [ho] at hu
    obtain ⟨hchain, hlarger⟩ := hm n s t (by rw [ho]; rfl)
    obtain ⟨hchain', hlarger'⟩ := hf a n t u hu
    refine ⟨?_, fun k hk => ?_⟩
    · simp only [after, ho]
      exact hchain.append hchain'
    · simp only [after, ho, hrising.eq_of_le hk ho nofun, hlarger k hk, hlarger' k hk]
  | error e t =>
    rw [ho] at hu
    obtain ⟨hchain, hlarger⟩ := hm n s u (by rw [ho]; exact hu)
    refine ⟨?_, fun k hk => ?_⟩
    · simp only [after, ho, List.append_nil]
      exact hchain
    · simp only [after, ho, hrising.eq_of_le hk ho nofun, hlarger k hk]
  | exhausted =>
    rw [ho] at hu
    cases hu

/-- What follows without printing anything makes no difference. -/
lemma bind_quiet (hm : Follows config m p) (hrising : Rising m)
    (hf : ∀ n a, (f n a).Keeps State.SameOutput) :
    Follows config (fun n => m n >>= f n) p := by
  have hbind := hm.bind hrising fun a => quiet (m := fun n => f n a) fun n => hf n a
  have hnone (n : Nat) (s : State) :
      p n s ++ (m n).after s (fun _ _ => ([] : List (Task × State))) = p n s := by
    unfold after
    cases m n s <;> exact List.append_nil _
  simpa only [hnone] using hbind

/-- A loop over several tasks. -/
lemma each (ts : List Task) :
    Follows config (fun n => EvalM.each (fun t => t.run config n) ts)
      fun n => Task.visits config n ts := by
  induction ts with
  | nil => exact quiet fun _ => .pure []
  | cons t rest ih =>
    refine (task t).bind (Task.rising_run config t) fun value => ?_
    exact ih.bind_quiet (Rising.each (Task.rising_run config) rest) fun _ values =>
      .pure (value :: values)

end Follows

/-- A loop over members is a loop over what is made of them. -/
lemma each_map {γ : Type} (f : β → EvalM γ) (g : α → β) (l : List α) :
    EvalM.each f (l.map g) = EvalM.each (fun a => f (g a)) l := by
  induction l with
  | nil => rfl
  | cons a rest ih =>
    rw [List.map_cons, EvalM.each, EvalM.each, ih]

namespace Task

variable [Machine]

lemma follows_each_eval (config : Config) (site : Site) (forms : List Form) :
    Follows config (fun n => EvalM.each (SmallLisp.eval config n site) forms)
      fun n => visits config n (forms.map (eval site)) := by
  have h : Follows config _ _ := .each (forms.map (eval site))
  simp only [each_map] at h
  exact h

lemma follows_each_call (config : Config) (env : FrameId) (f : Value)
    (columns : List (List Value)) :
    Follows config (fun n => EvalM.each (SmallLisp.call config n env f) columns)
      fun n => visits config n (columns.map (call env f)) := by
  have h : Follows config _ _ := .each (columns.map (call env f))
  simp only [each_map] at h
  exact h

lemma follows_sequence (config : Config) (site : Site) (forms : List Form) :
    Follows config (fun n => (sequence site forms).run config n)
      fun n => visits config n (forms.map (eval site)) := by
  simp only [run, sequence_eq_each]
  exact (follows_each_eval config site forms).bind_quiet
    (Rising.each (rising_eval config site) forms) fun _ _ => .pure _

lemma follows_shape (config : Config) (site : Site) (shape : Shape) :
    Follows config
      (fun n => evalShape (SmallLisp.eval config n) (SmallLisp.call config n) site shape)
      fun n => shapeParts config n site shape := by
  have hrising := rising_run config
  cases shape with
  | lambda params body =>
    simp only [evalShape]
    exact .quiet fun _ => sameOutput_update fun _ => rfl
  | conditional condition consequent alternative =>
    refine (Follows.task (eval site condition)).bind (hrising _) fun value => ?_
    cases value.isTruthy with
    | true => exact .task (eval site consequent)
    | false =>
      cases alternative with
      | some form => exact .task (eval site form)
      | none => exact .quiet fun _ => .pure Value.nil
  | define name form =>
    exact (Follows.task (eval site form)).bind_quiet (hrising _) fun _ _ =>
      sameOutput_update fun _ => rfl
  | sequence forms => exact .task (sequence site forms)
  | call head args =>
    refine (Follows.task (eval site head)).bind (hrising _) fun callee => ?_
    cases callee.isProcedure with
    | true =>
      refine (follows_each_eval config site args).bind (Rising.each (rising_eval config site) args)
        fun values => ?_
      exact .task (call site.env callee values)
    | false => exact .quiet fun _ => .fail _

lemma follows_eval (config : Config) (site : Site) (form : Form) :
    Follows config (fun n => (eval site form).step config n) fun n s =>
      (eval site form).parts config n s := by
  cases form with
  | int | float | str => exact .quiet fun _ => .pure _
  | symbol name span => exact .quiet fun _ => .resolve site.env name span
  | list items span =>
    simp only [step, evalForm, parts]
    cases Shape.ofList span items with
    | ok shape => exact follows_shape config site shape
    | error e => exact .quiet fun _ => .fail _

lemma follows_apply (config : Config) (env : FrameId) (f list : Value) :
    Follows config (fun n => applyBody (SmallLisp.call config n) env f list) fun n s =>
      (call env (.primitive .apply) [f, list]).parts config n s := by
  simp only [applyBody, parts]
  cases hproc : f.isProcedure with
  | true =>
    cases Lists.second list with
    | ok items => exact .task (call env f items)
    | error fault => exact .quiet fun _ => .fail _
  | false => exact .quiet fun _ => .fail _

lemma follows_map (config : Config) (env : FrameId) (f list : Value) (lists : List Value) :
    Follows config (fun n => mapBody (SmallLisp.call config n) env f list lists) fun n s =>
      (call env (.primitive .map) (f :: list :: lists)).parts config n s := by
  simp only [mapBody, each_orFault, parts]
  cases hproc : f.isProcedure with
  | true =>
    cases Lists.argument list with
    | ok first =>
      cases lists.mapM Lists.argument with
      | ok others =>
        exact (follows_each_call config env f (Lists.columns first others)).bind_quiet
          (Rising.each (rising_call config env f) _) fun _ _ => sameOutput_update fun _ => rfl
      | error fault => exact .quiet fun _ => .fail _
    | error fault => exact .quiet fun _ => .fail _
  | false => exact .quiet fun _ => .fail _

/-! ### Calls -/

lemma follows_closure (config : Config) (env : FrameId) (id : Identity) (c : Closure)
    (args : List Value) :
    Follows config (fun n => callClosure (SmallLisp.eval config n) config env c args) fun n s =>
      (call env (.closure id c) args).parts config n s := by
  intro n s u hu
  change (callClosure _ config env c args s).state? = some u at hu
  by_cases hcount : args.length = c.params.length
  · cases hfree : config.reached? s.depth with
    | none =>
      have hparts (k : Nat) : (call env (.closure id c) args).parts config k s =
          [(eval ⟨c.source, s.store.next⟩ c.body, config.enter env c args s)] :=
        if_pos ⟨hcount, hfree⟩
      rw [callClosure_apply hcount hfree] at hu
      obtain ⟨v, hv, rfl⟩ := state?_leave hu
      have hbody := (Follows.task (eval ⟨c.source, s.store.next⟩ c.body)) n _ v hv
      simp only [hparts]
      -- entering the call and leaving it prints nothing
      exact ⟨hbody.1, fun _ _ => trivial⟩
    | some limit =>
      have hparts (k : Nat) : (call env (.closure id c) args).parts config k s = [] :=
        if_neg (by simp [hfree])
      rw [callClosure_of_reached hcount hfree] at hu
      cases hu
      simp only [hparts]
      exact ⟨.nil _, fun _ _ => trivial⟩
  · have hparts (k : Nat) : (call env (.closure id c) args).parts config k s = [] :=
      if_neg fun h => hcount h.1
    rw [callClosure_of_count hcount] at hu
    cases hu
    simp only [hparts]
    exact ⟨.nil _, fun _ _ => trivial⟩

section Primitive

variable {env : FrameId} {p : Primitive} {args : List Value}

/-- Operations begin nothing and print nothing. -/
lemma idle_of_operation {body : Body (Except Fault Answer)}
    (meaning : p.meaning = .operation body) :
    (call env (.primitive p) args).written? = none ∧
      ∀ n s, (call env (.primitive p) args).parts config n s = [] := by
  cases p <;> first | exact ⟨rfl, fun _ _ => rfl⟩ | cases meaning

/-- With a wrong number of arguments, nothing is begun and nothing is printed. -/
lemma idle_of_refused (h : p.arity.accepts args.length = false) :
    (call env (.primitive p) args).written? = none ∧
      ∀ n s, (call env (.primitive p) args).parts config n s = [] := by
  cases p with
  | apply =>
    rcases args with _ | ⟨f, _ | ⟨list, _ | ⟨v, rest⟩⟩⟩
    · exact ⟨rfl, fun _ _ => rfl⟩
    · exact ⟨rfl, fun _ _ => rfl⟩
    · cases h
    · exact ⟨rfl, fun _ _ => rfl⟩
  | map =>
    rcases args with _ | ⟨f, _ | ⟨list, lists⟩⟩
    · exact ⟨rfl, fun _ _ => rfl⟩
    · exact ⟨rfl, fun _ _ => rfl⟩
    · simp [Primitive.arity, Arity.accepts] at h
  | writeLine =>
    rcases args with _ | ⟨v, _ | ⟨w, rest⟩⟩
    · exact ⟨rfl, fun _ _ => rfl⟩
    · cases h
    · exact ⟨rfl, fun _ _ => rfl⟩
  | _ => exact ⟨rfl, fun _ _ => rfl⟩

end Primitive

/-- The task has printed what it prints itself and what it begins, one after the other, and a larger
bound does not lead to other parts. -/
def Steps (config : Config) (n : Nat) (t : Task) (s u : State) : Prop :=
  Chain config n (t.heard s.output) (t.parts config n s) u.output ∧
    ∀ k, n ≤ k → t.parts config k s = t.parts config n s

lemma steps_of_idle {t : Task} (h : t.written? = none ∧ ∀ n s, t.parts config n s = [])
    (hu : u.output = s.output) : t.Steps config n s u := by
  obtain ⟨hwritten, hparts⟩ := h
  unfold Steps heard
  simp only [hwritten, hparts, hu]
  exact ⟨.nil s.output, fun _ _ => trivial⟩

lemma steps_primitive {env : FrameId} {p : Primitive} {args : List Value}
    (h : (callPrimitive (SmallLisp.call config n) env p args s).state? = some u) :
    (call env (.primitive p) args).Steps config n s u := by
  rcases Primitive.called_or_refused (SmallLisp.call config n) env p args with
    ⟨m, hm, hcalled⟩ | hrefused
  · cases hcalled with
    | @operation p body args result meaning run =>
      refine steps_of_idle (idle_of_operation meaning) ?_
      rw [Primitive.callPrimitive_of_operation meaning run] at h
      cases result with
      | ok answer =>
        cases answer with
        | value | string | list =>
          cases h
          rfl
      | error fault =>
        cases h
        rfl
    | application f list => exact follows_apply config env f list n s u h
    | mapping f list lists => exact follows_map config env f list lists n s u h
    | printing v =>
      cases h
      exact ⟨.nil _, fun _ _ => rfl⟩
  · refine steps_of_idle (idle_of_refused hrefused) ?_
    rw [Primitive.callPrimitive_of_refused hrefused] at h
    cases h
    rfl

/-- What one step of the evaluator prints. -/
theorem steps (t : Task) (h : (t.step config n s).state? = some u) : t.Steps config n s u := by
  cases t with
  | eval site form => exact follows_eval config site form n s u h
  | sequence site forms => exact follows_sequence config site forms n s u h
  | call env callee args =>
    cases callee with
    | primitive p => exact steps_primitive h
    | closure id c => exact follows_closure config env id c args n s u h
    | _ =>
      cases h
      exact ⟨.nil _, fun _ _ => rfl⟩

end Task

/-! ## The whole journal -/

/-- The tasks are begun one after the other, where each is begun with the output that the ones
before it leave, of which the first one is begun with `o`, and in the end the output is `o'`. -/
inductive Logged : Output → List (Task × State) → Output → Prop
  | nil (o : Output) : Logged o [] o
  | cons {t : Task} {s : State} {rest : List (Task × State)} {o : Output}
      (logged : Logged (t.heard s.output) rest o) : Logged s.output ((t, s) :: rest) o

namespace Logged

lemma append {l l' : List (Task × State)} (h : Logged o l o') (h' : Logged o' l' o'') :
    Logged o (l ++ l') o'' := by
  induction h with
  | nil => exact h'
  | cons _ ih => exact .cons (ih h')

lemma exists_of_append {l l' : List (Task × State)} (h : Logged o (l ++ l') o'') :
    ∃ o', Logged o l o' ∧ Logged o' l' o'' := by
  induction l generalizing o with
  | nil => exact ⟨o, .nil o, h⟩
  | cons entry rest ih =>
    cases h with
    | cons logged =>
      obtain ⟨o', hrest, hl'⟩ := ih logged
      exact ⟨o', .cons hrest, hl'⟩

/-- What is printed is what the tasks print themselves. -/
lemma output_eq {l : List (Task × State)} (h : Logged o l o') :
    o' = o.writeAll (Task.written l) := by
  induction h with
  | nil => rfl
  | @cons t s rest o' _ ih =>
    rw [ih, Task.heard, Task.written, Task.written, List.filterMap_cons]
    cases t.written? with
    | none => rfl
    | some v => rfl

/-- When a task is begun, what was printed is what those before it have printed. -/
lemma output_eq_of_entry {before after : List (Task × State)} {t : Task}
    (h : Logged o (before ++ (t, s) :: after) o') :
    s.output = o.writeAll (Task.written before) := by
  obtain ⟨o₁, hbefore, hentry⟩ := h.exists_of_append
  cases hentry with
  | cons => exact hbefore.output_eq

end Logged

/-- If the task ends, then a larger bound no longer changes its journal, and nothing is printed
between its entries. -/
def Task.Recorded [Machine] (config : Config) (n : Nat) (t : Task) (s : State) : Prop :=
  ∀ u, (t.run config n s).state? = some u →
    ∃ journal, (∀ᶠ k in atTop, t.journal config k s = journal) ∧ Logged s.output journal u.output

/-- The journals of tasks that are done one after the other make up one. -/
lemma Chain.logged [Machine] {ps : List (Task × State)} (h : Chain config n o ps o')
    (hps : ∀ p ∈ ps, p.1.Recorded config n p.2) :
    ∃ l, (∀ᶠ k in atTop, ps.flatMap (fun p => p.1.journal config k p.2) = l) ∧ Logged o l o' := by
  induction h with
  | nil o => exact ⟨[], .of_forall fun _ => rfl, .nil o⟩
  | @cons t s u rest o ended _ ih =>
    obtain ⟨ht, hrest⟩ := List.forall_mem_cons.mp hps
    obtain ⟨l, hl, hlogged⟩ := ht u ended
    obtain ⟨l', hl', hlogged'⟩ := ih hrest
    refine ⟨l ++ l', ?_, hlogged.append hlogged'⟩
    filter_upwards [hl, hl'] with k hk hk'
    rw [List.flatMap_cons, hk, hk']

namespace Task

variable [Machine]

/-- If what a task begins is recorded, then so is the task. -/
lemma exists_of_steps {t : Task} (h : t.Steps config n s u)
    (hparts : ∀ p ∈ t.parts config n s, p.1.Recorded config n p.2) :
    ∃ journal, (∀ᶠ k in atTop, t.journal config k s = journal) ∧
      Logged s.output journal u.output := by
  obtain ⟨hchain, hlarger⟩ := h
  obtain ⟨l, hl, hlogged⟩ := hchain.logged hparts
  refine ⟨(t, s) :: l, ?_, .cons hlogged⟩
  rw [← map_add_atTop_eq_nat 1, eventually_map]
  filter_upwards [hl, eventually_ge_atTop n] with k hk hn
  rw [journal, hlarger k hn, hk]

/-- A sequence has the same bound as its members. -/
lemma recorded_sequence (heval : ∀ site form s, (eval site form).Recorded config n s)
    (site : Site) (forms : List Form) (s : State) :
    (sequence site forms).Recorded config n s := by
  intro u hu
  refine exists_of_steps (steps (sequence site forms) hu) fun p hp => ?_
  obtain ⟨before, form, after, values, -, hform, -⟩ := exists_of_mem_visits hp
  rw [hform]
  exact heval site form p.2

/-- Tasks are recorded. -/
theorem recorded (config : Config) (n : Nat) (t : Task) (s : State) : t.Recorded config n s := by
  induction n generalizing t s with
  | zero =>
    cases t with
    | sequence site forms => exact recorded_sequence (fun _ _ _ _ hu => by cases hu) site forms s
    | eval | call =>
      intro u hu
      cases hu
  | succ n ih =>
    have heval (site : Site) (form : Form) (s : State) :
        (eval site form).Recorded config (n + 1) s := fun u hu =>
      exists_of_steps (steps (eval site form) hu) fun p _ => ih p.1 p.2
    cases t with
    | eval site form => exact heval site form s
    | sequence site forms => exact recorded_sequence heval site forms s
    | call env callee args =>
      intro u hu
      exact exists_of_steps (steps (call env callee args) hu) fun p _ => ih p.1 p.2

end Task

end SmallLisp
