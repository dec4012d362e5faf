import SmallLisp.Proofs.Evaluation.Keeps
import SmallLisp.Proofs.Evaluation.Primitive

/-!
# Relations that pass through the evaluator

Several facts about the evaluator compare it with itself: with a larger bound on the nesting of
evaluations, or under other settings.  What they have in common is a relation between evaluations
that holds of the basic operations, that `bind` passes on, and that goes from the body of a closure
to the call of it.  Such a relation is a *congruence* (`Congruence`), and it holds between the two
evaluators (`Congruence.evaluator`).

A property of states that evaluations keep is the special case in which the second evaluation does
not matter (`Congruence.keeps`).
-/

namespace SmallLisp

variable [Machine]

/-- A relation between evaluations, under the settings `config` and `config'`, that one step of the
evaluator passes on. -/
structure Congruence (config config' : Config)
    (rel : (α : Type) → EvalM α → EvalM α → Prop) : Prop where
  /-- An evaluation that is not within its bound is related to whatever the evaluator does. -/
  eval : ∀ n site form, rel Value .exhausted (eval config' n site form)
  call : ∀ n env callee args, rel Value .exhausted (call config' n env callee args)
  pure : ∀ {α : Type} (a : α), rel α (pure a) (pure a)
  fail : ∀ {α : Type} (e : EvalError), rel α (.fail e) (.fail e)
  resolve : ∀ env name span, rel Value (.resolve env name span) (.resolve env name span)
  closure : ∀ c, rel Value (.update (·.newClosure c)) (.update (·.newClosure c))
  allocate : ∀ answer, rel Value (.update (·.allocate answer)) (.update (·.allocate answer))
  define : ∀ env name value, rel Value (.update fun s => (.nil, s.define env name value))
    (.update fun s => (.nil, s.define env name value))
  print : ∀ v, rel Value (printBody v) (printBody v)
  bind : ∀ {α β : Type} {m m' : EvalM α} {f f' : α → EvalM β}, rel α m m' →
    (∀ a, rel β (f a) (f' a)) → rel β (m >>= f) (m' >>= f')
  /-- From evaluations of the body to calls of the closure. -/
  body : ∀ {eval eval' : Site → Form → EvalM Value},
    (∀ site form, rel Value (eval site form) (eval' site form)) → ∀ env c args,
      rel Value (callClosure eval config env c args) (callClosure eval' config' env c args)

namespace Congruence

variable {config config' : Config} {rel : (α : Type) → EvalM α → EvalM α → Prop}
variable {eval eval' : Site → Form → EvalM Value}
variable {call call' : FrameId → Value → List Value → EvalM Value}

section Step

variable (h : Congruence config config' rel)
variable (heval : ∀ site form, rel Value (eval site form) (eval' site form))
variable (hcall : ∀ env callee args, rel Value (call env callee args) (call' env callee args))
include h

lemma each {α β : Type} {f f' : α → EvalM β} (hf : ∀ a, rel β (f a) (f' a)) (l : List α) :
    rel (List β) (EvalM.each f l) (EvalM.each f' l) := by
  induction l with
  | nil => exact h.pure []
  | cons a rest ih => exact h.bind (hf a) fun b => h.bind ih fun bs => h.pure (b :: bs)

lemma sequence {α : Type} {f f' : α → EvalM Value} (hf : ∀ a, rel Value (f a) (f' a))
    (l : List α) (last : Value) :
    rel Value (EvalM.sequence f last l) (EvalM.sequence f' last l) := by
  induction l generalizing last with
  | nil => exact h.pure last
  | cons a rest ih => exact h.bind (hf a) ih

lemma orFault {α : Type} (p : Primitive) (result : Except Fault α) :
    rel α (orFault p result) (orFault p result) := by
  cases result with
  | ok a => exact h.pure a
  | error fault => exact h.fail _

include heval hcall

lemma evalShape (site : Site) (shape : Shape) :
    rel Value (evalShape eval call site shape) (evalShape eval' call' site shape) := by
  cases shape with
  | lambda params body => exact h.closure _
  | conditional condition consequent alternative =>
    refine h.bind (heval site condition) fun value => ?_
    split
    · exact heval site consequent
    · cases alternative with
      | none => exact h.pure _
      | some form => exact heval site form
  | define name form => exact h.bind (heval site form) fun value => h.define _ _ _
  | sequence forms => exact h.sequence (heval site) forms _
  | call head args =>
    refine h.bind (heval site head) fun callee => ?_
    split
    · exact h.bind (h.each (heval site) args) fun values => hcall _ _ _
    · exact h.fail _

lemma evalForm (site : Site) (form : Form) :
    rel Value (evalForm eval call site form) (evalForm eval' call' site form) := by
  cases form with
  | int | float | str => exact h.pure _
  | symbol name span => exact h.resolve _ _ _
  | list items span =>
    simp only [SmallLisp.evalForm]
    split
    · exact h.evalShape heval hcall site _
    · exact h.fail _

omit heval

lemma applyBody (env : FrameId) (f args : Value) :
    rel Value (applyBody call env f args) (applyBody call' env f args) := by
  unfold SmallLisp.applyBody
  split
  · exact h.bind (h.orFault _ _) fun values => hcall _ _ _
  · exact h.fail _

lemma mapBody (env : FrameId) (f list : Value) (lists : List Value) :
    rel Value (mapBody call env f list lists) (mapBody call' env f list lists) := by
  unfold SmallLisp.mapBody
  split
  · refine h.bind (h.orFault _ _) fun first => ?_
    refine h.bind (h.each (fun v => h.orFault _ _) lists) fun others => ?_
    refine h.bind (h.each (hcall env f) _) fun results => ?_
    exact h.allocate (.list results)
  · exact h.fail _

lemma callPrimitive (env : FrameId) (p : Primitive) (args : List Value) :
    rel Value (callPrimitive call env p args) (callPrimitive call' env p args) := by
  rcases Primitive.called_or_refused call env p args with ⟨m, hm, hcalled⟩ | hrefused
  · rw [hm]
    cases hcalled with
    | operation meaning run =>
      rw [Primitive.callPrimitive_of_operation meaning run]
      exact h.bind (h.orFault _ _) fun answer => h.allocate answer
    | application f list => exact h.applyBody hcall env f list
    | mapping f list lists => exact h.mapBody hcall env f list lists
    | printing v => exact h.print v
  · rw [Primitive.callPrimitive_of_refused hrefused, Primitive.callPrimitive_of_refused hrefused]
    exact h.fail _

include heval

lemma callValue (env : FrameId) (callee : Value) (args : List Value) :
    rel Value (callValue eval call config env callee args)
      (callValue eval' call' config' env callee args) := by
  cases callee with
  | primitive p => exact h.callPrimitive hcall env p args
  | closure id c => exact h.body heval env c args
  | _ => exact h.fail _

end Step

/-- A congruence holds between the evaluator at some bound and the one at a bound that is no
smaller. -/
theorem evaluator (h : Congruence config config' rel) {n n' : Nat} (hn : n ≤ n') :
    (∀ site form, rel Value (SmallLisp.eval config n site form)
      (SmallLisp.eval config' n' site form)) ∧
    (∀ env callee args, rel Value (SmallLisp.call config n env callee args)
      (SmallLisp.call config' n' env callee args)) := by
  induction n generalizing n' with
  | zero => exact ⟨h.eval n', h.call n'⟩
  | succ n ih =>
    obtain ⟨k, rfl⟩ := Nat.exists_eq_add_of_le' hn
    obtain ⟨heval, hcall⟩ := ih (Nat.le_add_left n k)
    exact ⟨fun site form => h.evalForm heval hcall site form,
      fun env callee args => h.callValue heval hcall env callee args⟩

end Congruence

/-! ## Properties of states that evaluations keep -/

/-- What the evaluator does to states is within the relation, and the relation goes from the body
of a closure to the call of it. -/
structure Respected (R : State → State → Prop) : Prop extends IsPreorder State R where
  object : ∀ s, R s s.fresh.2
  define : ∀ s env name value, R s (s.define env name value)
  print : ∀ s line, R s { s with output := s.output.writeLine line }
  body : ∀ s frame t, R { (s.newFrame frame).2 with depth := s.depth + 1 } t →
    R s { t with depth := t.depth - 1 }

open EvalM

namespace Respected

variable {R : State → State → Prop}

omit [Machine] in
lemma allocate (h : Respected R) (answer : Answer) :
    (EvalM.update (·.allocate answer)).Keeps R := by
  refine Keeps.update fun s => ?_
  cases answer with
  | value v => exact h.refl s
  | string text => exact h.object s
  | list items => exact h.object s

omit [Machine] in
lemma callClosure (h : Respected R) {eval : Site → Form → EvalM Value} (config : Config)
    (heval : ∀ site form, (eval site form).Keeps R) (env : FrameId) (c : Closure)
    (args : List Value) : (callClosure eval config env c args).Keeps R := by
  intro s t ht
  unfold SmallLisp.callClosure at ht
  split at ht
  · split at ht
    · cases ht
      exact h.refl s
    · next hfree =>
      have hbody : (nested (eval ⟨c.source, s.store.next⟩ c.body)).Keeps fun u v =>
          u = (s.newFrame (config.callFrame s.store env c args)).2 → R s v := by
        refine Keeps.nested fun u v hv hu => ?_
        subst hu
        exact h.body s _ v (heval _ _ _ _ hv)
      exact hbody _ t ht rfl
  · cases ht
    exact h.refl s

/-- Keeping a respected relation is a congruence, of the first evaluation alone. -/
lemma congruence (h : Respected R) (config config' : Config) :
    Congruence config config' fun _ m _ => m.Keeps R := by
  have := h.toIsPreorder
  exact {
    eval := fun _ _ _ => Keeps.exhausted
    call := fun _ _ _ _ => Keeps.exhausted
    pure := Keeps.pure
    fail := Keeps.fail
    resolve := Keeps.resolve
    closure := fun c => Keeps.update fun s => h.object s
    allocate := h.allocate
    define := fun env name value => Keeps.update fun s => h.define s env name value
    print := fun v => Keeps.update fun s => h.print s v.text
    bind := fun hm hf => Keeps.bind hm hf
    body := fun heval env c args => h.callClosure config heval env c args }

/-- Evaluations and calls keep every respected relation. -/
theorem keeps (h : Respected R) (config : Config) (n : Nat) :
    (∀ site form, (eval config n site form).Keeps R) ∧
    (∀ env callee args, (call config n env callee args).Keeps R) :=
  (h.congruence config config).evaluator (Nat.le_refl n)

end Respected

end SmallLisp
