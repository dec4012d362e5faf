import SmallLisp.Proofs.Evaluation.DepthLimit
import SmallLisp.Proofs.Interpreter.Reachable

/-!
# The count of calls in progress

The state counts the calls of closures that are in progress, and the limit on them is compared with
that count alone.  So the limit means what it says only if the count is right.

It is (`depth_counts_calls`).  Whatever is evaluated leaves the count as it was, also if it ends in
an error, of which the error of the limit itself is one.  On the way the count exceeds that at the
beginning by the number of calls that have been entered and not left, which `Reaches` reads off the
course of the evaluation instead of the state.  Between evaluations the count of an interpreter is
zero, whatever has failed before, so that each evaluation may nest as many calls as the first one.
-/

namespace SmallLisp

variable {config : Config} {limit : Nat} {s s₀ t : State} {task : Task}

/-! ## On the way -/

/-- What is begun inside of a call is begun with no more calls in progress than the limit allows. -/
lemma Reaches.depth_le [Machine] {t₀ : Task} {k : Nat} (h : Reaches config t₀ s₀ k task s)
    (hlimit : config.maxDepth = some limit) (hk : 0 < k) : s.depth ≤ limit := by
  induction h with
  | here => exact absurd hk (Nat.lt_irrefl 0)
  | @step k t s t' s' reached starts ih =>
    have hdepth := starts.depth_eq
    cases starts with
    | body count free =>
      -- the body of a closure is begun only after the count was compared with the limit
      exact (Config.reached?_eq_none_iff hlimit).mp free
    | _ =>
      rw [hdepth]
      exact ih hk

/-- A call with the right number of arguments begins the body of the closure exactly if fewer calls
are in progress than the limit allows. -/
lemma Task.begins_body_iff [Machine] {env : FrameId} {id : Identity} {c : Closure}
    {args : List Value}
    (hlimit : config.maxDepth = some limit) (count : args.length = c.params.length) :
    Starts config (.call env (.closure id c) args) s (.eval ⟨c.source, s.store.next⟩ c.body)
      (config.enter env c args s) ↔ s.depth < limit := by
  rw [← Config.reached?_eq_none_iff hlimit]
  constructor
  · rintro ⟨⟩
    assumption
  · intro free
    exact .body count free

/-! ## Between evaluations -/

namespace Interpreter

variable {it it' : Interpreter} {result : Except Error Value} {fuel : Nat} {source : String}

lemma depth_of_perform {m : EvalM Value} (hm : m.Keeps fun s t => t.depth = s.depth)
    (h : it.perform m = some (result, it')) : it'.state.depth = it.state.depth := by
  obtain ⟨s, rfl, hs⟩ := perform_eq_some h
  exact hm _ s hs

variable [Machine]

lemma depth_of_run (h : it.run fuel source = some (result, it')) :
    it'.state.depth = it.state.depth := by
  obtain ⟨e, -, rfl⟩ | ⟨forms, s, -, rfl, hs⟩ := run_eq_some h
  · rfl
  · -- reading the source takes a number for it and changes nothing else
    exact Task.keeps_run respected_depth it.config fuel _ it.state.newSource.2 s hs

lemma depth_of_runOne (h : it.runOne fuel source = some (result, it')) :
    it'.state.depth = it.state.depth := by
  obtain ⟨e, -, rfl⟩ | ⟨form, s, -, rfl, hs⟩ := runOne_eq_some h
  · rfl
  · exact Task.keeps_run respected_depth it.config fuel _ it.state.newSource.2 s hs

/-- Between evaluations, no calls are in progress. -/
lemma Reachable.depth_eq (h : it.Reachable) : it.state.depth = 0 := by
  induction h with
  | new | on => rfl
  | run _ ran ih => exact (depth_of_run ran).trans ih
  | runOne _ ran ih => exact (depth_of_runOne ran).trans ih
  | eval _ _ ran ih =>
    exact (depth_of_perform ((respected_depth.keeps _ _).1 _ _) ran).trans ih
  | call _ _ ran ih =>
    exact (depth_of_perform ((respected_depth.keeps _ _).2 _ _ _) ran).trans ih
  | define _ _ _ _ ih | frame _ _ ih | object _ ih | source _ ih | clear _ ih => exact ih

end Interpreter

/-! ## The count is right -/

/-- Evaluations of forms and of sequences of forms, calls of procedures, calls of primitive
procedures and runs of sources leave the count of calls in progress as they find it, whether they
end with a result or with an error.

While something is evaluated, the count is that at the beginning and one for each call of a closure
that it is inside of; and under a limit, nothing inside of a call is evaluated with a count above
the limit.

In an interpreter no calls are in progress between evaluations, whatever was done with it before; so
in every evaluation a call of a closure, with the right number of arguments, begins the body of the
closure exactly if it is inside of fewer other calls than the limit says, and otherwise ends in the
error of the limit. -/
theorem depth_counts_calls [Machine] (config : Config) :
    (∀ fuel (task : Task) s t, (task.run config fuel s).state? = some t → t.depth = s.depth) ∧
    (∀ fuel env p args s t, (callPrimitive (call config fuel) env p args s).state? = some t →
      t.depth = s.depth) ∧
    (∀ fuel (it it' : Interpreter) source result, it.run fuel source = some (result, it') →
      it'.state.depth = it.state.depth) ∧
    (∀ (task₀ : Task) s₀ k task s, Reaches config task₀ s₀ k task s →
      s.depth = s₀.depth + k ∧
        ∀ limit, config.maxDepth = some limit → 0 < k → s.depth ≤ limit) ∧
    ∀ it : Interpreter, it.Reachable →
      it.state.depth = 0 ∧
        ∀ limit (task₀ : Task) k env id c args s, it.config.maxDepth = some limit →
          Reaches it.config task₀ it.state k (.call env (.closure id c) args) s →
          args.length = c.params.length →
            (Starts it.config (.call env (.closure id c) args) s
                (.eval ⟨c.source, s.store.next⟩ c.body) (it.config.enter env c args s) ↔
              k < limit) ∧
            (limit ≤ k →
              (Task.call env (.closure id c) args).Ends it.config s
                (.error (.depthExceeded limit) s)) := by
  have hkeeps (fuel : Nat) := respected_depth.keeps config fuel
  refine ⟨?_, ?_, fun _ _ _ _ _ => Interpreter.depth_of_run, ?_, ?_⟩
  · intro fuel task s t ht
    exact task.keeps_run respected_depth config fuel s t ht
  · intro fuel env p args s t ht
    have hcongruence := respected_depth.congruence config config
    exact @Congruence.callPrimitive _ _ _ _ _ (call config fuel) hcongruence (hkeeps fuel).2 env p
      args s t ht
  · intro task₀ s₀ k task s hreaches
    exact ⟨hreaches.depth_eq, fun limit => hreaches.depth_le⟩
  · intro it hit
    refine ⟨hit.depth_eq, fun limit task₀ k env id c args s hlimit hreaches count => ?_⟩
    have hdepth : s.depth = k := by rw [hreaches.depth_eq, hit.depth_eq, Nat.zero_add]
    rw [Task.begins_body_iff hlimit count, hdepth]
    refine ⟨Iff.rfl, fun hle => ?_⟩
    have hreached : it.config.reached? s.depth = some limit := by
      rw [Config.reached?, hlimit, hdepth]
      simpa using hle
    exact Task.ends_call_iff.mpr (.of_forall fun _ => Task.callClosure_of_reached count hreached)

section

open scoped Machine

/-- Under a limit of one call, the call of `g` inside of another call fails.  The interpreter is
left with no calls in progress, and calls `g` by itself. -/
theorem depth_counts_calls_after_failure :
    ∃ it₁ it₂ it₃ r₁ r₂ r₃,
      (Interpreter.new ⟨.lexical, some 1⟩ .silent).run 9 "(define g (lambda () 1))" =
        some (r₁, it₁) ∧
      it₁.run 9 "((lambda () (g)))" = some (r₂, it₂) ∧ it₂.run 9 "(g)" = some (r₃, it₃) ∧
        r₂.toBool = false ∧ it₂.state.depth = 0 ∧ r₃.toBool = true := by
  let it := Interpreter.new ⟨.lexical, some 1⟩ .silent
  have hruns : (it.run 9 "(define g (lambda () 1))").bind (fun p₁ =>
      (p₁.2.run 9 "((lambda () (g)))").bind fun p₂ =>
        (p₂.2.run 9 "(g)").map fun p₃ => (p₂.1.toBool, p₃.1.toBool)) = some (false, true) := by
    decide +kernel
  obtain ⟨⟨r₁, it₁⟩, h₁, hruns⟩ := Option.bind_eq_some_iff.mp hruns
  obtain ⟨⟨r₂, it₂⟩, h₂, hruns⟩ := Option.bind_eq_some_iff.mp hruns
  obtain ⟨⟨r₃, it₃⟩, h₃, hresults⟩ := Option.map_eq_some_iff.mp hruns
  obtain ⟨hfailed, hsucceeded⟩ := Prod.mk.inj hresults
  have hreachable : it₂.Reachable := .run (.run (.new _ _) h₁) h₂
  have hdepth := ((depth_counts_calls it.config).2.2.2.2 it₂ hreachable).1
  exact ⟨it₁, it₂, it₃, r₁, r₂, r₃, h₁, h₂, h₃, hfailed, hdepth, hsucceeded⟩

end

end SmallLisp
