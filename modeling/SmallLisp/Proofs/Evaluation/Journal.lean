import Mathlib
import SmallLisp.Proofs.Evaluation.DepthLimit

/-!
# In which order things are begun

`Starts` says what is begun in the course of a task, but not in which order.  The *journal* of a
task does (`Task.journal`): it lists the tasks that are begun, each with the state in which it is
begun, and what a task begins stands behind it and before all that is begun after it.  The journal
is computed, with the evaluator itself and with a bound like that of the evaluator.

Once a larger bound no longer changes the journal, it lists exactly what is reached
(`Task.mem_journal_iff`).  So it adds nothing to `Reaches` but the order.
-/

namespace SmallLisp

open EvalM Filter

variable {α β : Type} {config : Config} {n : Nat} {s u : State}

/-! ## The journal -/

/-- What follows from the result of `m`, if it has one. -/
def EvalM.after (m : EvalM α) (s : State) (k : α → State → List β) : List β :=
  match m s with
  | .ok a t => k a t
  | .error .. | .exhausted => []

lemma EvalM.mem_after_iff {m : EvalM α} {k : α → State → List β} {b : β} :
    b ∈ m.after s k ↔ ∃ a t, m s = .ok a t ∧ b ∈ k a t := by
  unfold after
  cases m s with
  | ok a t =>
    constructor
    · intro h
      exact ⟨a, t, rfl, h⟩
    · rintro ⟨_, _, ⟨⟩, h⟩
      exact h
  | error e t => simp
  | exhausted => simp

lemma EvalM.Settles.eventually {m : Nat → EvalM α} {o : Outcome α} (h : Settles m s o) :
    ∀ᶠ k in atTop, m k s = o :=
  eventually_atTop.mpr h.2

variable [Machine]

namespace Task

/-- The members of a loop that are begun: the next one when the one before has a result. -/
def visits (config : Config) (n : Nat) : List Task → State → List (Task × State)
  | [], _ => []
  | t :: rest, s => (t, s) :: (t.run config n).after s fun _ u => visits config n rest u

/-- What is begun because of a shape, in order. -/
def shapeParts (config : Config) (n : Nat) (site : Site) : Shape → State → List (Task × State)
  | .lambda .., _ => []
  | .conditional condition consequent alternative, s =>
    (eval site condition, s) :: ((eval site condition).run config n).after s fun value u =>
      if value.isTruthy then [(eval site consequent, u)]
      else (alternative.map fun form => (eval site form, u)).toList
  | .define _ form, s => [(eval site form, s)]
  | .sequence forms, s => [(sequence site forms, s)]
  | .call head args, s =>
    (eval site head, s) :: ((eval site head).run config n).after s fun callee u =>
      if callee.isProcedure then
        visits config n (args.map (eval site)) u ++
          (EvalM.each (SmallLisp.eval config n site) args).after u fun values v =>
            [(call site.env callee values, v)]
      else []

/-- What the task itself begins, in order. -/
def parts (config : Config) (n : Nat) : Task → State → List (Task × State)
  | eval site (.list items span), s =>
    match Shape.ofList span items with
    | .ok shape => shapeParts config n site shape s
    | .error _ => []
  | sequence site forms, s => visits config n (forms.map (eval site)) s
  | call env (.closure _ c) args, s =>
    if args.length = c.params.length ∧ config.reached? s.depth = none then
      [(eval ⟨c.source, s.store.next⟩ c.body, config.enter env c args s)]
    else []
  | call env (.primitive .apply) [f, list], s =>
    if f.isProcedure then
      match Lists.second list with
      | .ok items => [(call env f items, s)]
      | .error _ => []
    else []
  | call env (.primitive .map) (f :: list :: lists), s =>
    if f.isProcedure then
      match Lists.argument list, lists.mapM Lists.argument with
      | .ok first, .ok others => visits config n ((Lists.columns first others).map (call env f)) s
      | _, _ => []
    else []
  | _, _ => []

/-- The task itself, and all that is begun in the course of it, in order. -/
def journal (config : Config) : Nat → Task → State → List (Task × State)
  | 0, _, _ => []
  | n + 1, t, s => (t, s) :: (t.parts config n s).flatMap fun p => journal config n p.1 p.2

/-! ## What is begun in a loop -/

section Loop

variable {f : α → Task}

/-- A member of a loop is begun after those before it have results. -/
lemma exists_of_mem_visits {l : List α} {p : Task × State} (h : p ∈ visits config n (l.map f) s) :
    ∃ before a after values, l = before ++ a :: after ∧ p.1 = f a ∧
      Settles (fun n => EvalM.each (fun a => (f a).run config n) before) s (.ok values p.2) := by
  induction l generalizing s with
  | nil => cases h
  | cons a rest ih =>
    rcases List.mem_cons.mp h with rfl | h
    · exact ⟨[], a, rest, [], rfl, rfl, .each_nil _ s⟩
    · obtain ⟨value, u, hrun, h⟩ := mem_after_iff.mp h
      obtain ⟨before, b, after, values, rfl, hp, hbefore⟩ := ih h
      have ha := (rising_run config (f a)).settles hrun nofun
      refine ⟨a :: before, b, after, value :: values, rfl, hp, ?_⟩
      exact @Settles.each_cons _ _ _ _ (fun n a => (f a).run config n) _ _ _ _ ha _ hbefore

lemma mem_visits_of_settles {before after : List α} {a : α} {values : List Value}
    (h : Settles (fun n => EvalM.each (fun a => (f a).run config n) before) s (.ok values u)) :
    ∀ᶠ k in atTop, (f a, u) ∈ visits config k ((before ++ a :: after).map f) s := by
  induction before generalizing s values with
  | nil =>
    cases h.unique (.each_nil _ s)
    exact .of_forall fun k => List.mem_cons_self
  | cons first rest ih =>
    rcases Settles.each_cons_cases (fun a => rising_run config (f a)) h with
      ⟨_, _, ho, -⟩ | ⟨value, v, hfirst, ⟨_, _, ho, -⟩ | ⟨values', _, ho, hrest⟩⟩
    · cases ho
    · cases ho
    · cases ho
      filter_upwards [hfirst.eventually, ih hrest] with k hk hmem
      exact List.mem_cons_of_mem _ (mem_after_iff.mpr ⟨value, v, hk, hmem⟩)

end Loop

/-! ## What the journal lists -/

lemma starts_of_mem_shapeParts {site : Site} {span : Span} {items : List Form} {shape : Shape}
    {p : Task × State} (hshape : Shape.ofList span items = .ok shape)
    (h : p ∈ shapeParts config n site shape s) :
    Starts config (eval site (.list items span)) s p.1 p.2 := by
  cases shape with
  | lambda params body => cases h
  | conditional condition consequent alternative =>
    rcases List.mem_cons.mp h with rfl | h
    · exact .condition hshape
    · obtain ⟨value, u, hrun, h⟩ := mem_after_iff.mp h
      have htest := (rising_run config _).settles hrun nofun
      cases htruthy : value.isTruthy with
      | true =>
        obtain rfl : p = (eval site consequent, u) := by simpa [htruthy] using h
        exact .consequent hshape htest htruthy
      | false =>
        cases alternative with
        | none => simp [htruthy] at h
        | some form =>
          obtain rfl : p = (eval site form, u) := by simpa [htruthy] using h
          exact .alternative hshape htest htruthy
  | define name form =>
    obtain rfl := List.mem_singleton.mp h
    exact .defined hshape
  | sequence forms =>
    obtain rfl := List.mem_singleton.mp h
    exact .sequence hshape
  | call head args =>
    rcases List.mem_cons.mp h with rfl | h
    · exact .head hshape
    · obtain ⟨callee, u, hrun, h⟩ := mem_after_iff.mp h
      have hhead := (rising_run config _).settles hrun nofun
      cases hproc : callee.isProcedure with
      | false => simp [hproc] at h
      | true =>
        rw [if_pos hproc] at h
        rcases List.mem_append.mp h with h | h
        · obtain ⟨before, form, after, values, rfl, hform, hbefore⟩ := exists_of_mem_visits h
          rw [hform]
          exact .argument hshape hhead hproc hbefore
        · obtain ⟨values, v, hargs, h⟩ := mem_after_iff.mp h
          obtain rfl := List.mem_singleton.mp h
          exact .callee hshape hhead hproc
            ((Rising.each (rising_eval config site) args).settles hargs nofun)

/-- What is begun with some bound is begun. -/
lemma starts_of_mem_parts {t : Task} {p : Task × State} (h : p ∈ t.parts config n s) :
    Starts config t s p.1 p.2 := by
  unfold parts at h
  split at h
  · split at h
    · next shape hshape => exact starts_of_mem_shapeParts hshape h
    · cases h
  · obtain ⟨before, form, after, values, rfl, hform, hbefore⟩ := exists_of_mem_visits h
    rw [hform]
    exact .member hbefore
  · split at h
    · next hcall =>
      obtain rfl := List.mem_singleton.mp h
      exact .body hcall.1 hcall.2
    · cases h
  · split at h
    · next hproc =>
      split at h
      · next items hitems =>
        obtain rfl := List.mem_singleton.mp h
        obtain ⟨id, rfl⟩ := Lists.eq_list_of_second hitems
        exact .applied hproc
      · cases h
    · cases h
  · split at h
    · next hproc =>
      split at h
      · next first others hfirst hothers =>
        obtain ⟨id, rfl⟩ := Lists.eq_list_of_argument hfirst
        obtain ⟨before, column, after, values, hcolumns, hcolumn, hbefore⟩ :=
          exists_of_mem_visits h
        rw [hcolumn]
        exact .mapped hproc hothers hcolumns hbefore
      · cases h
    · cases h
  · cases h

/-- What is begun is begun with every bound that is large enough. -/
lemma mem_parts_of_starts {t t' : Task} {s' : State} (h : Starts config t s t' s') :
    ∀ᶠ k in atTop, (t', s') ∈ t.parts config k s := by
  cases h with
  | condition shape | defined shape | sequence shape | head shape =>
    refine .of_forall fun k => ?_
    simp only [parts, shape]
    exact List.mem_cons_self
  | consequent shape tested htrue =>
    filter_upwards [tested.eventually] with k hk
    simp only [parts, shape]
    refine List.mem_cons_of_mem _ (mem_after_iff.mpr ⟨_, _, hk, ?_⟩)
    rw [if_pos htrue]
    exact List.mem_singleton_self _
  | alternative shape tested hfalse =>
    filter_upwards [tested.eventually] with k hk
    simp only [parts, shape]
    refine List.mem_cons_of_mem _ (mem_after_iff.mpr ⟨_, _, hk, ?_⟩)
    rw [if_neg (by simp [hfalse])]
    exact List.mem_singleton_self _
  | member done => exact mem_visits_of_settles done
  | @argument site span items head before form after _ callee _ values v shape called proc done =>
    have hvisits := @mem_visits_of_settles _ config _ _ _ (eval site) before after form values done
    filter_upwards [called.eventually, hvisits] with k hk hmem
    simp only [parts, shape]
    refine List.mem_cons_of_mem _ (mem_after_iff.mpr ⟨_, _, hk, ?_⟩)
    rw [if_pos proc]
    exact List.mem_append_left _ hmem
  | callee shape called proc done =>
    filter_upwards [called.eventually, done.eventually] with k hk hargs
    simp only [parts, shape]
    refine List.mem_cons_of_mem _ (mem_after_iff.mpr ⟨_, _, hk, ?_⟩)
    rw [if_pos proc]
    exact List.mem_append_right _ (mem_after_iff.mpr ⟨_, _, hargs, List.mem_singleton_self _⟩)
  | body count free =>
    refine .of_forall fun k => ?_
    simp only [parts, if_pos (And.intro count free)]
    exact List.mem_singleton_self _
  | applied proc =>
    refine .of_forall fun k => ?_
    simp only [parts, if_pos proc]
    exact List.mem_singleton_self _
  | @mapped env f id first lists others before column after _ values u proc rows columns done =>
    have hmem := @mem_visits_of_settles _ config s s' _ (call env f) before after column values done
    filter_upwards [hmem] with k hk
    simp only [parts, if_pos proc, rows]
    rw [← columns] at hk
    exact hk

end Task

/-- What is reached from something that a task begins is reached from the task. -/
lemma Reaches.of_starts {t t' t'' : Task} {s s' s'' : State} {k : Nat}
    (h : Starts config t s t' s') (h' : Reaches config t' s' k t'' s'') :
    ∃ k, Reaches config t s k t'' s'' := by
  induction h' with
  | here => exact ⟨_, Reaches.here.step h⟩
  | step _ starts ih =>
    obtain ⟨k, hk⟩ := ih
    exact ⟨_, hk.step starts⟩

namespace Task

lemma reaches_of_mem_journal {t : Task} {p : Task × State} (h : p ∈ t.journal config n s) :
    ∃ k, Reaches config t s k p.1 p.2 := by
  induction n generalizing t s with
  | zero => cases h
  | succ n ih =>
    rcases List.mem_cons.mp h with rfl | h
    · exact ⟨0, .here⟩
    · obtain ⟨q, hq, hp⟩ := List.mem_flatMap.mp h
      obtain ⟨k, hk⟩ := ih hp
      exact hk.of_starts (starts_of_mem_parts hq)

lemma mem_journal_of_reaches {t t' : Task} {s' : State} {k : Nat}
    (h : Reaches config t s k t' s') {p : Task × State}
    (hp : ∀ᶠ n in atTop, p ∈ t'.journal config n s') : ∀ᶠ n in atTop, p ∈ t.journal config n s := by
  induction h with
  | here => exact hp
  | @step k t₁ s₁ t' s' reached starts ih =>
    refine ih ?_
    rw [← map_add_atTop_eq_nat 1, eventually_map]
    filter_upwards [hp, mem_parts_of_starts starts] with n hn hpart
    exact List.mem_cons_of_mem _ (List.mem_flatMap.mpr ⟨(t', s'), hpart, hn⟩)

/-- The journal lists what is reached in the course of the task. -/
theorem mem_journal_iff {t t' : Task} {s' : State} {journal : List (Task × State)}
    (h : ∀ᶠ n in atTop, t.journal config n s = journal) :
    (t', s') ∈ journal ↔ ∃ k, Reaches config t s k t' s' := by
  constructor
  · intro hmem
    obtain ⟨n, hn⟩ := h.exists
    rw [← hn] at hmem
    exact reaches_of_mem_journal hmem
  · rintro ⟨k, hk⟩
    have hself : ∀ᶠ n in atTop, (t', s') ∈ t'.journal config n s' := by
      filter_upwards [eventually_ge_atTop 1] with n hn
      obtain ⟨m, rfl⟩ := Nat.exists_eq_add_of_le' hn
      exact List.mem_cons_self
    obtain ⟨n, hn, hmem⟩ := (h.and (mem_journal_of_reaches hk hself)).exists
    rwa [hn] at hmem

end Task

end SmallLisp
