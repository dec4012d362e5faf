import SmallLisp.Proofs.Evaluation.Task
import SmallLisp.Proofs.Primitive.Uniform
import SmallLisp.Proofs.Store.Alike

/-!
# Evaluations in larger states

A state may be found again inside of another one, in which there are more frames and more objects,
so that those of the first state have other numbers there.  That is an embedding
(`Renumbering.Embeds`), if the new frames and objects get corresponding numbers in both states.  As
an evaluation makes its frames and objects one by one in both of them, it leaves them embedded by
the same renumbering.  So under lexical scoping and without a limit on calls, it does the same in
the larger state as in the smaller one, and cannot know what else is there
(`Renumbering.evaluator`).

The number of calls in progress does not matter, because nothing depends on it without a limit.
-/

namespace SmallLisp

open EvalM

namespace Renumbering

variable {r : Renumbering} {s s' t t' : State} {v : Value} {env : FrameId} {x : String}

/-! ## States in larger ones -/

/-- The value stands in the larger state for this one. -/
abbrev Values (r : Renumbering) (v v' : Value) : Prop := v' = v.renumber r

/-- The frames bind the same names, to values of which the latter are renumbered, and so is the
parent. -/
structure Frames (r : Renumbering) (f f' : Frame) : Prop where
  bindings : f.bindings.Alike id r.Values f'.bindings
  parent : f'.parent = f.parent.map r.frame

/-- The frames of the first state are in the second one, under other numbers.  What is made from now
on gets corresponding numbers. -/
structure Embeds (r : Renumbering) (s s' : State) : Prop where
  frames : ∀ i : FrameId, Option.Rel r.Frames s.store.frames[i]? s'.store.frames[r.frame i]?
  next : ∀ k, r.frame (s.store.next + k) = s'.store.next + k
  serials : ∀ k, r.serial (s.objects + k) = s'.objects + k
  output : s'.output = s.output

lemma values_map (vs : List Value) : List.Forall₂ r.Values vs (vs.map (Value.renumber r)) :=
  List.forall₂_map_right_iff.mpr (List.forall₂_same.mpr fun _ _ => rfl)

lemma frames_inside (params : List String) (args : List Value) (env : FrameId) :
    r.Frames (Frame.inside env (params.zip args))
      (Frame.inside (r.frame env) (params.zip (args.map (Value.renumber r)))) where
  bindings := by
    have hentries := zip_alike (ρ := id) params (@values_map r args)
    rw [List.map_id] at hentries
    exact Bindings.Alike.empty.insertAll Function.injective_id hentries
  parent := rfl

namespace Embeds

lemma refl (s : State) : Renumbering.refl.Embeds s s where
  frames i := by
    change Option.Rel _ s.store.frames[i]? s.store.frames[i]?
    cases s.store.frames[i]? with
    | none => exact .none
    | some frame =>
      refine .some ⟨List.forall₂_same.mpr fun entry _ => ⟨rfl, ?_⟩, by cases frame.parent <;> rfl⟩
      exact (Value.renumber_refl entry.2).symm
  next _ := rfl
  serials _ := rfl
  output := rfl

lemma frame_next (h : r.Embeds s s') : r.frame s.store.next = s'.store.next := h.next 0

lemma serial_objects (h : r.Embeds s s') : r.serial s.objects = s'.objects := h.serials 0

lemma depths (h : r.Embeds s s') (depth depth' : Nat) :
    r.Embeds { s with depth := depth } { s' with depth := depth' } :=
  ⟨h.frames, h.next, h.serials, h.output⟩

/-- The same names are seen from corresponding frames, and stand for corresponding values. -/
theorem lookup (h : r.Embeds s s') (env : FrameId) (x : String) :
    Option.Rel r.Values (s.store.lookup env x) (s'.store.lookup (r.frame env) x) := by
  induction env using Nat.strongRecOn with
  | _ env ih =>
    have hframe := h.frames env
    cases hs : s.store.frames[env]? with
    | none =>
      rw [hs] at hframe
      generalize hs' : s'.store.frames[r.frame env]? = frame'? at hframe
      cases hframe
      rw [Store.lookup_of_none hs, Store.lookup_of_none hs']
      exact .none
    | some frame =>
      rw [hs] at hframe
      generalize hs' : s'.store.frames[r.frame env]? = frame'? at hframe
      cases hframe with
      | @some _ frame' hframe =>
        rw [Store.lookup_of_frame hs, Store.lookup_of_frame hs', hframe.parent]
        have hfound := hframe.bindings.find? Function.injective_id x
        rw [id] at hfound
        generalize frame.bindings.find? x = found, frame'.bindings.find? x = found' at hfound
        cases hfound with
        | some hvalue => exact .some hvalue
        | none =>
          rw [Option.none_or, Option.none_or]
          cases frame.parent with
          | none => exact .none
          | some parent =>
            simp only [Option.map_some, Option.filter_some, r.frame_mono.lt_iff_lt]
            by_cases hlt : parent < env
            · simpa only [hlt, decide_true, if_true, Option.bind_some] using ih parent hlt
            · simpa only [hlt, decide_false, Bool.false_eq_true, if_false] using .none

/-- Objects get corresponding identities. -/
lemma fresh (h : r.Embeds s s') :
    s'.fresh.1 = s.fresh.1.renumber r ∧ r.Embeds s.fresh.2 s'.fresh.2 := by
  refine ⟨congrArg Identity.fresh h.serial_objects.symm, h.frames, h.next, fun k => ?_, h.output⟩
  have hserial := h.serials (1 + k)
  rwa [← Nat.add_assoc, ← Nat.add_assoc] at hserial

/-- Frames get corresponding numbers. -/
lemma newFrame {f f' : Frame} (h : r.Embeds s s') (hf : r.Frames f f') :
    r.Embeds (s.newFrame f).2 (s'.newFrame f').2 := by
  refine ⟨fun i => ?_, fun k => ?_, h.serials, h.output⟩
  · have hnext : r.frame i = s'.store.frames.size ↔ i = s.store.frames.size := by
      have hnext := h.frame_next
      rw [Store.next, Store.next] at hnext
      rw [← hnext, r.frame_mono.injective.eq_iff]
    simp only [State.newFrame, Store.push, Array.getElem?_push, hnext]
    split
    · exact .some hf
    · exact h.frames i
  · have hframe := h.next (1 + k)
    simp only [State.newFrame, Store.next_push]
    rwa [← Nat.add_assoc, ← Nat.add_assoc] at hframe

lemma define (h : r.Embeds s s') (env : FrameId) (x : String) (v : Value) :
    r.Embeds (s.define env x v) (s'.define (r.frame env) x (v.renumber r)) := by
  refine ⟨fun i => ?_, fun k => ?_, h.serials, h.output⟩
  · simp only [State.define, Store.define, Array.getElem?_modify, r.frame_mono.injective.eq_iff]
    have hframe := h.frames i
    split
    · generalize s.store.frames[i]? = frame?, s'.store.frames[r.frame i]? = frame?' at hframe ⊢
      cases hframe with
      | none => exact .none
      | some hframe =>
        exact .some ⟨hframe.bindings.insert Function.injective_id x rfl, hframe.parent⟩
    · exact hframe
  · simpa only [State.define, Store.next_define] using h.next k

lemma print (h : r.Embeds s s') (line : String) :
    r.Embeds { s with output := s.output.writeLine line }
      { s' with output := s'.output.writeLine line } :=
  ⟨h.frames, h.next, h.serials, by rw [h.output]⟩

end Embeds

/-! ## Evaluations that do the same -/

section Commutes

variable {α β γ δ : Type} {φ : α → β} {ψ : γ → δ}

/-- The outcomes are the same up to renumbering: both states are left embedded, and of the results
the second one is what `φ` makes of the first one. -/
inductive Outcomes (r : Renumbering) (φ : α → β) : Outcome α → Outcome β → Prop
  | ok {a : α} {t t' : State} (states : r.Embeds t t') : Outcomes r φ (.ok a t) (.ok (φ a) t')
  | error {e : EvalError} {t t' : State} (states : r.Embeds t t') :
      Outcomes r φ (.error e t) (.error e t')
  | exhausted : Outcomes r φ .exhausted .exhausted

/-- In embedded states, the evaluations have the same outcomes up to renumbering. -/
def Commutes (r : Renumbering) (φ : α → β) (m : EvalM α) (m' : EvalM β) : Prop :=
  ∀ ⦃s s'⦄, r.Embeds s s' → r.Outcomes φ (m s) (m' s')

lemma Outcomes.of_eq {a : α} {b : β} (hb : b = φ a) (states : r.Embeds t t') :
    r.Outcomes φ (.ok a t) (.ok b t') := by
  rw [hb]
  exact .ok states

/-- The same was printed. -/
lemma Outcomes.output {o : Outcome α} {o' : Outcome β} (h : r.Outcomes φ o o')
    (ht : o.state? = some t) (ht' : o'.state? = some t') : t'.output = t.output := by
  cases h with
  | ok states | error states =>
    cases ht
    cases ht'
    exact states.output
  | exhausted => cases ht

lemma Outcomes.leave {o : Outcome α} {o' : Outcome β} (h : r.Outcomes φ o o') :
    r.Outcomes φ o.leave o'.leave := by
  cases h with
  | ok states => exact .ok (states.depths _ _)
  | error states => exact .error (states.depths _ _)
  | exhausted => exact .exhausted

namespace Commutes

lemma pure (a : α) : r.Commutes φ (Pure.pure a) (Pure.pure (φ a)) := fun _ _ h => .ok h

lemma fail (e : EvalError) : r.Commutes φ (EvalM.fail e) (EvalM.fail e) := fun _ _ h => .error h

lemma bind {m : EvalM α} {m' : EvalM β} {f : α → EvalM γ} {f' : β → EvalM δ}
    (hm : r.Commutes φ m m') (hf : ∀ a, r.Commutes ψ (f a) (f' (φ a))) :
    r.Commutes ψ (m >>= f) (m' >>= f') := by
  intro s s' h
  change r.Outcomes ψ (EvalM.bind m f s) (EvalM.bind m' f' s')
  unfold EvalM.bind
  have ho := hm h
  generalize m s = o, m' s' = o' at ho
  cases ho with
  | ok states => exact hf _ states
  | error states => exact .error states
  | exhausted => exact .exhausted

lemma each {f : α → EvalM γ} {f' : β → EvalM δ} (hf : ∀ a, r.Commutes ψ (f a) (f' (φ a)))
    (l : List α) : r.Commutes (List.map ψ) (EvalM.each f l) (EvalM.each f' (l.map φ)) := by
  induction l with
  | nil => exact pure []
  | cons a l ih => exact (hf a).bind fun b => ih.bind fun bs => pure (b :: bs)

lemma sequence {f f' : α → EvalM Value}
    (hf : ∀ a, r.Commutes (Value.renumber r) (f a) (f' a)) (l : List α) (last : Value) :
    r.Commutes (Value.renumber r) (EvalM.sequence f last l)
      (EvalM.sequence f' (last.renumber r) l) := by
  induction l generalizing last with
  | nil => exact pure last
  | cons a l ih => exact (hf a).bind ih

lemma orFault (p : Primitive) (result : Except Fault α) :
    r.Commutes φ (SmallLisp.orFault p result) (SmallLisp.orFault p (result.map φ)) := by
  cases result with
  | ok a => exact pure a
  | error fault => exact fail _

lemma allocate (answer : Answer) :
    r.Commutes (Value.renumber r) (EvalM.update (·.allocate answer))
      (EvalM.update (·.allocate (answer.renumber r))) := by
  intro s s' h
  obtain ⟨hid, hstate⟩ := h.fresh
  cases answer with
  | value v => exact .ok h
  | string text => exact .of_eq (congrArg (Value.str · text) hid) hstate
  | list items =>
    refine .of_eq ?_ hstate
    rw [Value.renumber_list]
    exact congrArg (Value.list · (items.map (Value.renumber r))) hid

end Commutes

end Commutes

/-! ## One step -/

/-- The evaluator does the same in states that are embedded.  Where a procedure is called from is no
matter. -/
structure Steps (r : Renumbering) (eval : Site → Form → EvalM Value)
    (call : FrameId → Value → List Value → EvalM Value) : Prop where
  eval : ∀ site form,
    r.Commutes (Value.renumber r) (eval site form) (eval ⟨site.source, r.frame site.env⟩ form)
  call : ∀ env env' callee args, r.Commutes (Value.renumber r) (call env callee args)
    (call env' (callee.renumber r) (args.map (Value.renumber r)))

namespace Steps

variable {eval : Site → Form → EvalM Value} {call : FrameId → Value → List Value → EvalM Value}
variable (h : r.Steps eval call)
include h

lemma evalShape (site : Site) (shape : Shape) :
    r.Commutes (Value.renumber r) (SmallLisp.evalShape eval call site shape)
      (SmallLisp.evalShape eval call ⟨site.source, r.frame site.env⟩ shape) := by
  cases shape with
  | lambda params body =>
    intro s s' hs
    obtain ⟨hid, hstate⟩ := hs.fresh
    exact .of_eq (congrArg (Value.closure · _) hid) hstate
  | conditional condition consequent alternative =>
    refine (h.eval site condition).bind fun value => ?_
    rw [Value.isTruthy_renumber]
    split
    · exact h.eval site consequent
    · cases alternative with
      | none => exact .pure Value.nil
      | some form => exact h.eval site form
  | define name form =>
    refine (h.eval site form).bind fun value s s' hs => ?_
    exact .of_eq rfl (hs.define site.env name value)
  | sequence forms => exact Commutes.sequence (h.eval site) forms .nil
  | call head args =>
    refine (h.eval site head).bind fun callee => ?_
    rw [Value.isProcedure_renumber, Value.kind_renumber]
    split
    · have hargs := Commutes.each (φ := id) (h.eval site) args
      rw [List.map_id] at hargs
      exact hargs.bind fun values => h.call _ _ callee values
    · exact .fail _

lemma evalForm (site : Site) (form : Form) :
    r.Commutes (Value.renumber r) (SmallLisp.evalForm eval call site form)
      (SmallLisp.evalForm eval call ⟨site.source, r.frame site.env⟩ form) := by
  cases form with
  | int n => exact .pure (Value.int n)
  | float x => exact .pure (Value.float x)
  | str text span => exact .pure (Value.str (.literal site.source span) text)
  | symbol name span =>
    intro s s' hs
    have hfound := hs.lookup site.env name
    simp only [SmallLisp.evalForm, resolve]
    generalize s.store.lookup site.env name = value,
      s'.store.lookup (r.frame site.env) name = value' at hfound
    cases hfound with
    | none => exact .error hs
    | some hvalue => exact .of_eq hvalue hs
  | list items span =>
    simp only [SmallLisp.evalForm]
    split
    · exact h.evalShape site _
    · exact .fail _

lemma applyBody (env env' : FrameId) (f list : Value) :
    r.Commutes (Value.renumber r) (SmallLisp.applyBody call env f list)
      (SmallLisp.applyBody call env' (f.renumber r) (list.renumber r)) := by
  unfold SmallLisp.applyBody
  rw [Value.isProcedure_renumber, Value.kind_renumber, Lists.second_renumber]
  split
  · exact (Commutes.orFault _ _).bind fun items => h.call env env' f items
  · exact .fail _

lemma mapBody (env env' : FrameId) (f list : Value) (lists : List Value) :
    r.Commutes (Value.renumber r) (SmallLisp.mapBody call env f list lists)
      (SmallLisp.mapBody call env' (f.renumber r) (list.renumber r)
        (lists.map (Value.renumber r))) := by
  simp only [SmallLisp.mapBody, each_orFault]
  rw [Value.isProcedure_renumber, Value.kind_renumber, Lists.argument_renumber,
    Lists.mapM_argument_renumber]
  split
  · refine (Commutes.orFault _ _).bind fun first => (Commutes.orFault _ _).bind fun others => ?_
    rw [Lists.columns_renumber]
    exact (Commutes.each (h.call env env' f) _).bind fun results =>
      Commutes.allocate (.list results)
  · exact .fail _

lemma callPrimitive [Machine] (env env' : FrameId) (p : Primitive) (args : List Value) :
    r.Commutes (Value.renumber r) (SmallLisp.callPrimitive call env p args)
      (SmallLisp.callPrimitive call env' p (args.map (Value.renumber r))) := by
  rcases Primitive.called_or_refused call env p args with ⟨m, hm, hcalled⟩ | hrefused
  · rw [hm]
    cases hcalled with
    | @operation p body args result meaning run =>
      have hrun := Primitive.renumbers_of_operation (r := r) meaning args
      rw [run] at hrun
      rw [Primitive.callPrimitive_of_operation meaning hrun]
      exact (Commutes.orFault p result).bind fun answer => Commutes.allocate answer
    | application f list => exact h.applyBody env env' f list
    | mapping f list lists => exact h.mapBody env env' f list lists
    | printing v =>
      intro s s' hs
      refine .of_eq rfl ?_
      rw [Value.text_renumber]
      exact hs.print v.text
  · rw [Primitive.callPrimitive_of_refused hrefused,
      Primitive.callPrimitive_of_refused (by rwa [List.length_map]), List.length_map]
    exact .fail _

lemma callClosure (env env' : FrameId) (c : Closure) (args : List Value) :
    r.Commutes (Value.renumber r) (SmallLisp.callClosure eval ⟨.lexical, none⟩ env c args)
      (SmallLisp.callClosure eval ⟨.lexical, none⟩ env' (c.renumber r)
        (args.map (Value.renumber r))) := by
  intro s s' hs
  by_cases hcount : args.length = c.params.length
  · have hcount' : (args.map (Value.renumber r)).length = (c.renumber r).params.length := by
      rwa [List.length_map]
    rw [Task.callClosure_apply hcount rfl, Task.callClosure_apply hcount' rfl, ← hs.frame_next]
    have henter := hs.newFrame (frames_inside c.params args c.env)
    exact (h.eval ⟨c.source, s.store.next⟩ c.body (henter.depths _ _)).leave
  · have hcount' : (args.map (Value.renumber r)).length ≠ (c.renumber r).params.length := by
      rwa [List.length_map]
    rw [Task.callClosure_of_count hcount, Task.callClosure_of_count hcount', List.length_map]
    exact .error hs

lemma callValue [Machine] (env env' : FrameId) (callee : Value) (args : List Value) :
    r.Commutes (Value.renumber r) (SmallLisp.callValue eval call ⟨.lexical, none⟩ env callee args)
      (SmallLisp.callValue eval call ⟨.lexical, none⟩ env' (callee.renumber r)
        (args.map (Value.renumber r))) := by
  cases callee with
  | primitive p => exact h.callPrimitive env env' p args
  | closure id c => exact h.callClosure env env' c args
  | _ => exact .fail _

end Steps

/-! ## Whole evaluations -/

variable [Machine]

/-- Under lexical scoping and without a limit, evaluations do the same in embedded states. -/
theorem evaluator (r : Renumbering) (n : Nat) :
    r.Steps (SmallLisp.eval ⟨.lexical, none⟩ n) (SmallLisp.call ⟨.lexical, none⟩ n) :=
  evaluator_induction _
    ⟨fun _ _ _ _ _ => .exhausted, fun _ _ _ _ _ _ _ => .exhausted⟩
    (fun _ _ h => ⟨h.evalForm, h.callValue⟩) n

section Calls

variable {f : Value} {args : List Value} {o o' : Outcome Value}

/-- A call that ends in a state ends likewise in a larger one. -/
theorem Embeds.call_ends (h : r.Embeds s s') (env' : FrameId)
    (hends : (Task.call env f args).Ends ⟨.lexical, none⟩ s o) :
    ∃ o',
      (Task.call env' (f.renumber r) (args.map (Value.renumber r))).Ends ⟨.lexical, none⟩ s' o' ∧
        r.Outcomes (Value.renumber r) o o' := by
  obtain ⟨n, hn⟩ := hends.exists_bound
  have houtcomes := (r.evaluator n).call env env' f args h
  change r.Outcomes _ ((Task.call env f args).run _ n s) _ at houtcomes
  rw [hn] at houtcomes
  refine ⟨_, (rising_call _ _ _ _).settles rfl fun hex => ?_, houtcomes⟩
  rw [hex] at houtcomes
  cases houtcomes
  exact hends.1 rfl

/-- A call that ends in the larger state ends in the smaller one too. -/
theorem Embeds.exists_call_ends (h : r.Embeds s s') {env' : FrameId}
    (hends : (Task.call env' (f.renumber r) (args.map (Value.renumber r))).Ends ⟨.lexical, none⟩ s'
      o') (env : FrameId) : ∃ o, (Task.call env f args).Ends ⟨.lexical, none⟩ s o := by
  obtain ⟨n, hn⟩ := hends.exists_bound
  have houtcomes := (r.evaluator n).call env env' f args h
  change r.Outcomes _ _ ((Task.call env' _ _).run _ n s') at houtcomes
  rw [hn] at houtcomes
  refine ⟨SmallLisp.call ⟨.lexical, none⟩ n env f args s, (rising_call _ _ _ _).settles rfl
    fun hex => ?_⟩
  rw [hex] at houtcomes
  cases houtcomes
  exact hends.1 rfl

end Calls

end Renumbering

end SmallLisp
