import SmallLisp.Proofs.Evaluation.Run

/-!
# Evaluations that are cut off

An evaluation under a limit on calls does what one under a higher limit does, up to where its limit
ends it (`EvalM.Cut.congruence`).  That settles all that is to be said of results and of printed
text.

Whether the limit ends an evaluation is `EvalM.Exceeds`.  The lemmas about it say where in an
evaluation of several parts the limit was run into.
-/

namespace SmallLisp

open EvalM

/-! ## Up to the limit -/

/-- The second outcome is the first one, unless the latter is none or is the error of the limit.
In that case the second one has printed all that the first one has printed, and possibly more. -/
def Outcome.Cut {α : Type} (limit : Nat) (o o' : Outcome α) : Prop :=
  o = .exhausted ∨ o' = o ∨ ∃ t, o = .error (.depthExceeded limit) t ∧
    ∀ u, o'.state? = some u → t.output.Extends u.output

lemma Outcome.Cut.leave {α : Type} {limit : Nat} {o o' : Outcome α} (h : o.Cut limit o') :
    o.leave.Cut limit o'.leave := by
  rcases h with rfl | rfl | ⟨t, rfl, hmore⟩
  · exact .inl rfl
  · exact .inr (.inl rfl)
  · refine .inr (.inr ⟨_, rfl, fun u hu => ?_⟩)
    cases o' with
    | ok a v | error e v =>
      cases hu
      exact hmore v rfl
    | exhausted => cases hu

/-- The second evaluation does what the first one does, up to where the limit ends the first
one. -/
def EvalM.Cut {α : Type} (limit : Nat) (m m' : EvalM α) : Prop := ∀ s, (m s).Cut limit (m' s)

namespace EvalM.Cut

variable {α β : Type} {limit : Nat}

lemma refl (m : EvalM α) : m.Cut limit m := fun _ => .inr (.inl rfl)

/-- After a first part that is cut off, what follows it without the limit can only print more. -/
lemma bind {m m' : EvalM α} {f f' : α → EvalM β} (hm : m.Cut limit m')
    (hf : ∀ a, (f a).Cut limit (f' a))
    (hprint : ∀ a, (f' a).Keeps fun s t => s.output.Extends t.output) :
    (m >>= f).Cut limit (m' >>= f') := by
  intro s
  change (EvalM.bind m f s).Cut limit (EvalM.bind m' f' s)
  unfold EvalM.bind
  rcases hm s with h | h | ⟨t, h, hmore⟩
  · exact .inl (by rw [h])
  · rw [h]
    cases m s with
    | ok a t => exact hf a t
    | error e t => exact .inr (.inl rfl)
    | exhausted => exact .inl rfl
  · refine .inr (.inr ⟨t, by rw [h], fun u hu => ?_⟩)
    cases hm' : m' s with
    | ok a v =>
      rw [hm'] at hu hmore
      exact (hmore v rfl).trans (hprint a v u hu)
    | error e v =>
      rw [hm'] at hu hmore
      exact hmore u hu
    | exhausted =>
      rw [hm'] at hu
      cases hu

/-- Evaluations under a limit are cut off from those under a higher one. -/
theorem congruence [Machine] (scoping : Scoping) {higher : Option Nat}
    (h : ∀ n ∈ higher, limit ≤ n) :
    Congruence ⟨scoping, some limit⟩ ⟨scoping, higher⟩ fun _ m m' =>
      m.Cut limit m' ∧ m'.Keeps fun s t => s.output.Extends t.output := by
  have := respected_output.toIsPreorder
  have hkeeps := respected_output.congruence ⟨scoping, higher⟩ ⟨scoping, higher⟩
  exact {
    eval := fun n site form => ⟨fun _ => .inl rfl, (respected_output.keeps _ n).1 site form⟩
    call := fun n env callee args =>
      ⟨fun _ => .inl rfl, (respected_output.keeps _ n).2 env callee args⟩
    pure := fun a => ⟨refl _, hkeeps.pure a⟩
    fail := fun e => ⟨refl _, hkeeps.fail e⟩
    resolve := fun env name span => ⟨refl _, hkeeps.resolve env name span⟩
    closure := fun c => ⟨refl _, hkeeps.closure c⟩
    allocate := fun answer => ⟨refl _, hkeeps.allocate answer⟩
    define := fun env name value => ⟨refl _, hkeeps.define env name value⟩
    print := fun v => ⟨refl _, hkeeps.print v⟩
    bind := fun hm hf => ⟨hm.1.bind (fun a => (hf a).1) fun a => (hf a).2,
      Keeps.bind hm.2 fun a => (hf a).2⟩
    body := fun {eval eval'} heval env c args => by
      have hprint := respected_output.callClosure ⟨scoping, higher⟩
        (fun site form => (heval site form).2) env c args
      refine ⟨fun s => ?_, hprint⟩
      by_cases hcount : args.length = c.params.length
      · by_cases hfree : s.depth < limit
        · have hfree' : Config.reached? ⟨scoping, higher⟩ s.depth = none := by
            simp only [Config.reached?, Option.filter_eq_none_iff]
            intro n hn
            simpa using Nat.lt_of_lt_of_le hfree (h n hn)
          rw [Task.callClosure_apply hcount ((Config.reached?_eq_none_iff rfl).mpr hfree),
            Task.callClosure_apply hcount hfree']
          exact ((heval _ _).1 _).leave
        · have hreached : Config.reached? ⟨scoping, some limit⟩ s.depth = some limit := by
            simp [Config.reached?, Nat.le_of_not_lt hfree]
          rw [Task.callClosure_of_reached hcount hreached]
          exact .inr (.inr ⟨s, rfl, fun u hu => hprint s u hu⟩)
      · rw [Task.callClosure_of_count hcount, Task.callClosure_of_count hcount]
        exact .inr (.inl rfl) }

end EvalM.Cut

/-! ## Running into the limit -/

namespace EvalM

variable {α : Type} {limit : Nat} {m m' : Nat → EvalM α} {s u : State} {o : Outcome α}

/-- From the state `s`, the limit ends the evaluation. -/
def Exceeds (limit : Nat) (m : Nat → EvalM α) (s : State) : Prop :=
  ∃ u, Settles m s (.error (.depthExceeded limit) u)

/-- What ends under a limit, and not by the limit, ends alike without it. -/
lemma Settles.of_cut (hcut : ∀ n, (m n).Cut limit (m' n)) (h : Settles m s o)
    (ho : ∀ t, o ≠ .error (.depthExceeded limit) t) : Settles m' s o := by
  obtain ⟨hex, bound, h⟩ := h
  refine ⟨hex, bound, fun n hn => ?_⟩
  rcases hcut n s with hn' | hn' | ⟨t, hn', -⟩
  · exact absurd ((h n hn).symm.trans hn') hex
  · rw [hn', h n hn]
  · exact absurd ((h n hn).symm.trans hn') (ho t)

/-- What has a result without the limit has it under the limit as well, or the limit ends it. -/
lemma Settles.cut_or_exceeds {a : α} (hcut : ∀ n, (m n).Cut limit (m' n))
    (hends : ∃ o, Settles m s o) (h : Settles m' s (.ok a u)) :
    Settles m s (.ok a u) ∨ Exceeds limit m s := by
  obtain ⟨o, ho⟩ := hends
  by_cases hlimit : ∃ t, o = .error (.depthExceeded limit) t
  · obtain ⟨t, rfl⟩ := hlimit
    exact .inr ⟨t, ho⟩
  · left
    rw [h.unique (ho.of_cut hcut fun t ht => hlimit ⟨t, ht⟩)]
    exact ho

variable {β : Type} {f : Nat → α → EvalM β}

namespace Exceeds

lemma not_of_ok {a : α} (hok : Settles m s (.ok a u)) : ¬ Exceeds limit m s := by
  rintro ⟨t, ht⟩
  cases hok.unique ht

lemma not_of_error {e : EvalError} (herror : ∀ n, m n s = .error e u)
    (he : e ≠ .depthExceeded limit := by rintro ⟨⟩) : ¬ Exceeds limit m s := by
  rintro ⟨t, ht⟩
  cases ht.unique (Settles.of_forall herror)
  exact he rfl

lemma bind_cases (hm : Rising m) (h : Exceeds limit (fun n => m n >>= f n) s) :
    Exceeds limit m s ∨ ∃ a t, Settles m s (.ok a t) ∧ Exceeds limit (fun n => f n a) t := by
  obtain ⟨u, hu⟩ := h
  rcases hm.settles_bind_cases hu with ⟨a, t, ha, ht⟩ | ⟨e, t, ho, he⟩
  · exact .inr ⟨a, t, ha, u, ht⟩
  · cases ho
    exact .inl ⟨u, he⟩

/-- The limit is no fault of a primitive procedure. -/
lemma of_orFault_bind {p : Primitive} {result : Except Fault α}
    (h : Exceeds limit (fun n => orFault p result >>= f n) s) :
    ∃ a, result = .ok a ∧ Exceeds limit (fun n => f n a) s := by
  cases result with
  | ok a => exact ⟨a, rfl, h⟩
  | error fault => exact absurd h (not_of_error fun _ => rfl)

lemma of_each {l : List α} (hf : ∀ a, Rising fun n => f n a)
    (h : Exceeds limit (fun n => each (f n) l) s) :
    ∃ before a after bs u, l = before ++ a :: after ∧
      Settles (fun n => each (f n) before) s (.ok bs u) ∧ Exceeds limit (fun n => f n a) u := by
  obtain ⟨t, ht⟩ := h
  obtain ⟨before, a, after, bs, u, hl, hbefore, ha⟩ := Settles.each_error_cases hf ht
  exact ⟨before, a, after, bs, u, hl, hbefore, t, ha⟩

lemma bind (h : Exceeds limit m s) : Exceeds limit (fun n => m n >>= f n) s := by
  obtain ⟨u, hu⟩ := h
  exact ⟨u, hu.bind_error⟩

lemma bind_of_ok {a : α} (hm : Settles m s (.ok a u)) (h : Exceeds limit (fun n => f n a) u) :
    Exceeds limit (fun n => m n >>= f n) s := by
  obtain ⟨t, ht⟩ := h
  exact ⟨t, hm.bind ht⟩

lemma each_append {before after : List α} {a : α} {bs : List β}
    (hf : ∀ a, Rising fun n => f n a) (hbefore : Settles (fun n => each (f n) before) s (.ok bs u))
    (h : Exceeds limit (fun n => f n a) u) :
    Exceeds limit (fun n => each (f n) (before ++ a :: after)) s := by
  obtain ⟨t, ht⟩ := h
  exact ⟨t, Settles.each_append_error hf hbefore ht⟩

/-- The limit ends a loop if it ends the beginning of the loop. -/
lemma each_of_append {before after : List α} (hf : ∀ a, Rising fun n => f n a)
    (h : Exceeds limit (fun n => each (f n) before) s) :
    Exceeds limit (fun n => each (f n) (before ++ after)) s := by
  obtain ⟨before, a, between, bs, u, rfl, hbefore, ha⟩ := h.of_each hf
  rw [List.append_assoc, List.cons_append]
  exact each_append hf hbefore ha

end Exceeds

end EvalM

end SmallLisp
