import SmallLisp.Proofs.Evaluation.Printing
import SmallLisp.Proofs.Interpreter.Reachable

/-!
# Printing in a session

A session is a list of actions that are taken with an interpreter one after the other, each where
the one before has left it, be that with an error.  What the interpreter does with the lines that
are printed has no influence on a session, and a buffer keeps exactly these lines
(`printing_only_appends`).
-/

namespace SmallLisp

open Filter

/-- What is done with an interpreter in a session. -/
inductive Action where
  | run (source : String)
  | runOne (source : String)
  | apply (callee : Value) (args : List Value)
  | define (name : String) (value : Value)
  | clear

namespace Interpreter

/-- The result of an action and the interpreter after it; definitions and the like result in
`nil`. -/
def act [Machine] (fuel : Nat) (it : Interpreter) :
    Action → Option (Except Error Value × Interpreter)
  | .run source => it.run fuel source
  | .runOne source => it.runOne fuel source
  | .apply callee args => it.apply fuel callee args
  | .define name value => some (.ok .nil, it.define name value)
  | .clear => some (.ok .nil, it.clear)

/-- The results of several actions, and the interpreter after all of them. -/
def session [Machine] (fuel : Nat) (it : Interpreter) :
    List Action → Option (List (Except Error Value) × Interpreter)
  | [] => some ([], it)
  | action :: rest => do
    let (result, it) ← it.act fuel action
    let (results, it) ← session fuel it rest
    return (result :: results, it)

/-- The interpreter with another output. -/
def withOutput (o : Output) (it : Interpreter) : Interpreter :=
  { it with state := it.state.withOutput o }

variable {it it' : Interpreter} {fuel : Nat}

/-! ## Agreement -/

/-- What is performed ends in the same way whatever the output is. -/
lemma perform_withOutput {m : EvalM Value} (hm : m.IgnoresOutput) (it : Interpreter) (o : Output) :
    ∃ o', (it.withOutput o).perform m =
      (it.perform m).map fun ended => (ended.1, ended.2.withOutput o') := by
  obtain ⟨o', ho'⟩ := hm it.state o
  have houtcome : m (it.withOutput o).state = (m it.state).withOutput o' := ho'
  refine ⟨o', ?_⟩
  unfold perform
  rw [houtcome]
  cases m it.state <;> rfl

lemma act_withOutput [Machine] (fuel : Nat) (it : Interpreter) (o : Output) (action : Action) :
    ∃ o', (it.withOutput o).act fuel action =
      (it.act fuel action).map fun ended => (ended.1, ended.2.withOutput o') := by
  have hrun := IgnoresOutput.run it.config fuel
  cases action with
  | run source =>
    simp only [act, run]
    cases read source with
    | error e => exact ⟨o, rfl⟩
    | ok forms =>
      exact perform_withOutput (hrun (.sequence ⟨it.state.sources, it.global⟩ forms))
        (it.site it.global).2 o
  | runOne source =>
    simp only [act, runOne]
    cases readOne source with
    | error e => exact ⟨o, rfl⟩
    | ok form =>
      exact perform_withOutput (hrun (.eval ⟨it.state.sources, it.global⟩ form))
        (it.site it.global).2 o
  | apply callee args => exact perform_withOutput (hrun (.call it.global callee args)) it o
  | define name value => exact ⟨o, rfl⟩
  | clear => exact ⟨o.clear, rfl⟩

lemma session_withOutput [Machine] (fuel : Nat) (it : Interpreter) (o : Output)
    (actions : List Action) :
    ∃ o', (it.withOutput o).session fuel actions =
      (it.session fuel actions).map fun ended => (ended.1, ended.2.withOutput o') := by
  induction actions generalizing it o with
  | nil => exact ⟨o, rfl⟩
  | cons action rest ih =>
    obtain ⟨o₁, h₁⟩ := act_withOutput fuel it o action
    simp only [session, h₁]
    cases it.act fuel action with
    | none => exact ⟨o, rfl⟩
    | some ended =>
      obtain ⟨o₂, h₂⟩ := ih ended.2 o₁
      refine ⟨o₂, ?_⟩
      simp only [Option.map_some, Option.bind_eq_bind, Option.bind_some, h₂]
      cases session fuel ended.2 rest <;> rfl

end Interpreter

/-! ## What a buffer keeps -/

/-- A task that ends has written to a buffer what its journal says, and so have, whenever something
is begun, the entries before it. -/
lemma Task.exists_journal [Machine] {config : Config} {n : Nat} {task : Task} {s u : State}
    {text : String} (hs : s.output = .buffer text) (h : (task.run config n s).state? = some u) :
    ∃ journal, (∀ᶠ k in atTop, task.journal config k s = journal) ∧
      (∀ before t' s' after, journal = before ++ (t', s') :: after →
        s'.output = .buffer (text ++ linesOf (written before))) ∧
      u.output = .buffer (text ++ linesOf (written journal)) := by
  obtain ⟨journal, hjournal, hlogged⟩ := recorded config n task s u h
  rw [hs] at hlogged
  refine ⟨journal, hjournal, fun before t' s' after hsplit => ?_, ?_⟩
  · rw [hsplit] at hlogged
    rw [hlogged.output_eq_of_entry, Output.writeAll_buffer]
  · rw [hlogged.output_eq, Output.writeAll_buffer]

/-- Printing has no influence: with another output, each action of a session has the same result,
and the interpreter is the same in the end, but for the output.

And printing only appends.  After a task has ended, with a result or with an error, a buffer keeps
what it has kept before, and then a line for each call of `write-line` in the journal of the task,
in the order of the journal.  The journal lists everything that is begun in the course of the task,
wherever it is begun; and whenever something is begun, the buffer keeps the lines of those entries
that stand before it.  This is so in particular for the forms of a source that is run. -/
theorem printing_only_appends [Machine] :
    (∀ fuel (it : Interpreter) o actions, ∃ o', (it.withOutput o).session fuel actions =
      (it.session fuel actions).map fun ended => (ended.1, ended.2.withOutput o')) ∧
    (∀ config n (task : Task) s u text, s.output = .buffer text →
      (task.run config n s).state? = some u →
        ∃ journal, (∀ᶠ k in atTop, task.journal config k s = journal) ∧
          (∀ t' s', (t', s') ∈ journal ↔ ∃ k, Reaches config task s k t' s') ∧
          (∀ before t' s' after, journal = before ++ (t', s') :: after →
            s'.output = .buffer (text ++ linesOf (Task.written before))) ∧
          u.output = .buffer (text ++ linesOf (Task.written journal))) ∧
    ∀ fuel (it it' : Interpreter) source result text, it.state.output = .buffer text →
      it.run fuel source = some (result, it') →
        (∃ e, read source = .error e ∧ it' = it) ∨
        ∃ forms journal, read source = .ok forms ∧
          (∀ᶠ k in atTop, (Task.sequence ⟨it.state.sources, it.global⟩ forms).journal it.config k
            it.state.newSource.2 = journal) ∧
          it'.state.output = .buffer (text ++ linesOf (Task.written journal)) := by
  refine ⟨fun fuel it o actions => Interpreter.session_withOutput fuel it o actions, ?_, ?_⟩
  · intro config n task s u text hs hu
    obtain ⟨journal, hjournal, hbefore, hend⟩ := Task.exists_journal hs hu
    exact ⟨journal, hjournal, fun t' s' => Task.mem_journal_iff hjournal, hbefore, hend⟩
  · intro fuel it it' source result text htext hrun
    refine (Interpreter.run_eq_some hrun).imp id ?_
    rintro ⟨forms, u, hread, rfl, hu⟩
    let task : Task := .sequence ⟨it.state.sources, it.global⟩ forms
    obtain ⟨journal, hjournal, -, hend⟩ :=
      @Task.exists_journal _ it.config fuel task it.state.newSource.2 u text htext hu
    exact ⟨forms, journal, hread, hjournal, hend⟩

section

open scoped Machine

/-- Lines are printed through `map` and `apply` and in a closure, behind the line that the buffer
has kept before, and they stay when the source ends in an error.  Without a buffer, the error and
the store are the same. -/
theorem printing_only_appends_before_error :
    let source :=
      "(map write-line (list 1 2)) (apply write-line (list 3)) ((lambda () (write-line 4))) (car 5)"
    let it := Interpreter.new {} (.buffer "0\n")
    ∃ it₁ e, it.run 9 source = some (.error e, it₁) ∧
      (∃ o', (it.withOutput .silent).session 9 [.run source] =
        some ([.error e], it₁.withOutput o')) ∧
      ∃ forms journal, read source = .ok forms ∧
        (∀ᶠ k in atTop, (Task.sequence ⟨it.state.sources, it.global⟩ forms).journal it.config k
          it.state.newSource.2 = journal) ∧
        linesOf (Task.written journal) = "1\n2\n3\n4\n" := by
  intro source it
  obtain ⟨hsession, -, hrun⟩ := printing_only_appends
  have hends : (it.run 9 source).map (fun ended => (ended.1.toBool,
      ended.2.state.output.captured)) = some (false, "0\n1\n2\n3\n4\n") := by
    decide +kernel
  have hread : (read source).toBool = true := by decide +kernel
  obtain ⟨⟨result, it₁⟩, hit₁, hends⟩ := Option.map_eq_some_iff.mp hends
  obtain ⟨hfailed, hcaptured⟩ := Prod.mk.inj hends
  cases result with
  | ok value => cases hfailed
  | error e =>
    refine ⟨it₁, e, hit₁, ?_, ?_⟩
    · obtain ⟨o', ho'⟩ := hsession 9 it .silent [.run source]
      refine ⟨o', ho'.trans ?_⟩
      simp [Interpreter.session, Interpreter.act, hit₁]
    · rcases hrun 9 it it₁ source _ "0\n" rfl hit₁ with
        ⟨e, he, -⟩ | ⟨forms, journal, hforms, hjournal, hend⟩
      · rw [he] at hread
        cases hread
      · rw [hend] at hcaptured
        exact ⟨forms, journal, hforms, hjournal, (String.append_right_inj "0\n").mp hcaptured⟩

end

end SmallLisp
