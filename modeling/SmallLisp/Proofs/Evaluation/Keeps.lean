import Mathlib
import SmallLisp.Evaluation.Eval

/-!
# What every evaluation keeps

A relation between states is *kept* by an evaluation if it holds from the state in which the
evaluation starts to the one in which it ends, be that with a result or with an error.  For a
preorder, an evaluation keeps what its parts keep (`Keeps.bind`, `Keeps.each`, `Keeps.sequence`),
so that a property of whole evaluations comes down to the few operations that change the state.

The evaluator itself is reached by `evaluator_induction`: what holds of the evaluator that never
answers, and of one step around any evaluator of which it holds, holds at every bound.
-/

namespace SmallLisp

/-- The state in which an evaluation ends, with a result or with an error. -/
def Outcome.state? {α : Type} : Outcome α → Option State
  | ok _ s | error _ s => some s
  | exhausted => none

namespace EvalM

/-- The relation holds from every state to the one in which `m` ends when started there. -/
def Keeps {α : Type} (R : State → State → Prop) (m : EvalM α) : Prop :=
  ∀ s t, (m s).state? = some t → R s t

namespace Keeps

variable {α β : Type} {R : State → State → Prop}

lemma mono {Q : State → State → Prop} {m : EvalM α} (h : m.Keeps Q)
    (hQR : ∀ s t, Q s t → R s t) : m.Keeps R := fun s t ht => hQR s t (h s t ht)

lemma exhausted : (EvalM.exhausted : EvalM α).Keeps R := by
  intro s t ht
  cases ht

lemma update {f : State → α × State} (h : ∀ s, R s (f s).2) : (EvalM.update f).Keeps R := by
  intro s t ht
  cases ht
  exact h s

lemma nested {m : EvalM α} (h : ∀ s t, (m { s with depth := s.depth + 1 }).state? = some t →
    R s { t with depth := t.depth - 1 }) : (EvalM.nested m).Keeps R := by
  intro s t ht
  have hs := h s
  unfold EvalM.nested at ht
  cases ho : m { s with depth := s.depth + 1 } with
  | ok a u | error e u =>
    rw [ho] at ht hs
    cases ht
    exact hs u rfl
  | exhausted =>
    rw [ho] at ht
    cases ht

variable [IsPreorder State R]

lemma pure (a : α) : (Pure.pure a : EvalM α).Keeps R := by
  intro s t ht
  cases ht
  exact refl_of R s

lemma fail (e : EvalError) : (EvalM.fail e : EvalM α).Keeps R := by
  intro s t ht
  cases ht
  exact refl_of R s

lemma bind {m : EvalM α} {f : α → EvalM β} (hm : m.Keeps R) (hf : ∀ a, (f a).Keeps R) :
    (m >>= f).Keeps R := by
  intro s t ht
  change (EvalM.bind m f s).state? = some t at ht
  have hs := hm s
  unfold EvalM.bind at ht
  cases ho : m s with
  | ok a u =>
    rw [ho] at ht hs
    exact trans_of R (hs u rfl) (hf a u t ht)
  | error e u =>
    rw [ho] at ht hs
    exact hs t ht
  | exhausted =>
    rw [ho] at ht
    cases ht

lemma resolve (env : FrameId) (name : String) (span : Span) :
    (EvalM.resolve env name span).Keeps R := by
  intro s t ht
  unfold EvalM.resolve at ht
  split at ht
  all_goals
    cases ht
    exact refl_of R s

lemma orFault (p : Primitive) (result : Except Fault α) : (orFault p result).Keeps R := by
  cases result with
  | ok a => exact pure a
  | error fault => exact fail _

lemma each {f : α → EvalM β} {l : List α} (h : ∀ a ∈ l, (f a).Keeps R) :
    (EvalM.each f l).Keeps R := by
  induction l with
  | nil => exact pure []
  | cons a rest ih =>
    refine bind (h a List.mem_cons_self) ?_
    intro b
    refine bind (ih fun a ha => h a (List.mem_cons_of_mem _ ha)) ?_
    intro bs
    exact pure (b :: bs)

lemma sequence {f : α → EvalM Value} {l : List α} (h : ∀ a ∈ l, (f a).Keeps R) (last : Value) :
    (EvalM.sequence f last l).Keeps R := by
  induction l generalizing last with
  | nil => exact pure last
  | cons a rest ih =>
    exact bind (h a List.mem_cons_self) (ih fun a ha => h a (List.mem_cons_of_mem _ ha))

end Keeps

end EvalM

/-- What holds of the evaluator that never answers and is passed on by one step holds of the
evaluator at every bound on the nesting of evaluations. -/
theorem evaluator_induction [Machine] (config : Config)
    {P : (Site → Form → EvalM Value) → (FrameId → Value → List Value → EvalM Value) → Prop}
    (zero : P (fun _ _ => .exhausted) (fun _ _ _ => .exhausted))
    (step : ∀ eval call, P eval call → P (evalForm eval call) (callValue eval call config)) :
    ∀ n, P (eval config n) (call config n) := by
  intro n
  induction n with
  | zero =>
    have he : eval config 0 = fun _ _ => .exhausted := rfl
    have hc : call config 0 = fun _ _ _ => .exhausted := rfl
    rw [he, hc]
    exact zero
  | succ n ih =>
    have he : eval config (n + 1) = evalForm (eval config n) (call config n) := rfl
    have hc : call config (n + 1) = callValue (eval config n) (call config n) config := rfl
    rw [he, hc]
    exact step _ _ ih

end SmallLisp
