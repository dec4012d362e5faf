import SmallLisp.Proofs.Evaluation.Run
import SmallLisp.Proofs.Evaluation.Simulation
import SmallLisp.Proofs.Store.Alike

/-!
# What calls do not depend on

A closure remembers the frame in which it was made, and every call takes place in some frame.  Each
way of scoping uses one of the two, and the other one has no influence at all.

Under flat scoping it is the frame in which a closure was made that does not matter: two states that
are the same but for these frames lead to outcomes that are the same but for these frames
(`evaluator_flat_ignores_captured`).  That is shown by a simulation, because closures can be bound
to names, be part of lists and be compared.

Under lexical scoping it is the frame from which a procedure is called
(`call_lexical_ignores_site`).  The evaluator passes that frame on from call to call, also through
`apply` and `map`, but in the end it only gets to closures, for which it is of no use.
-/

namespace SmallLisp

/-! ## Flat scoping -/

/-- The closures are the same, except that they may have been made in different frames. -/
structure Closure.SameButCaptured (c c' : Closure) : Prop where
  params : c'.params = c.params
  body : c'.body = c.body
  source : c'.source = c.source

/-- The values are the same, except for the frames in which closures were made. -/
abbrev Value.SameButCaptured : Value → Value → Prop :=
  Matches .equal Closure.SameButCaptured

/-- The states are the same, except for the frames in which closures were made. -/
structure State.SameButCaptured (s s' : State) : Prop where
  objects : s'.objects = s.objects
  sources : s'.sources = s.sources
  depth : s'.depth = s.depth
  output : s'.output = s.output
  store : s.store.Alike (fun _ => id) Value.SameButCaptured s'.store

/-- The outcomes are the same, except for the frames in which closures were made. -/
inductive Outcome.SameButCaptured : Outcome Value → Outcome Value → Prop
  | ok {v v' : Value} {s s' : State} (values : v.SameButCaptured v')
      (states : s.SameButCaptured s') : SameButCaptured (.ok v s) (.ok v' s')
  | error (e : EvalError) {s s' : State} (states : s.SameButCaptured s') :
      SameButCaptured (.error e s) (.error e s')
  | exhausted : SameButCaptured .exhausted .exhausted

namespace Correspondence

/-- Everything stands for the same, except for the frames in which closures were made. -/
def butCaptured : Correspondence Unit where
  matching := .equal
  span a b := b = a
  output o o' := o' = o
  closure _ := Closure.SameButCaptured
  store _ := Store.Alike (fun _ => id) Value.SameButCaptured
  code _ site site' form form' := site' = site ∧ form' = form
  closure_mono _ h := h
  code_mono _ h := h

variable {s s' : Store}

/-- Code finds the same in stores that are alike. -/
lemma form_butCaptured (site : Site) (form : Form)
    (hs : s.Alike (fun _ => id) Value.SameButCaptured s') :
    butCaptured.Forms () site site s s' form form := by
  refine Forms.self (R := butCaptured) (fun _ => rfl) (fun _ _ => ⟨trivial, rfl, trivial⟩)
    (hs.lookup Function.injective_id site.env) fun items span shape _ _ => ?_
  refine Shapes.self (fun _ => rfl) (fun _ _ => ⟨rfl, rfl⟩) (fun _ _ _ => ⟨rfl, rfl, rfl⟩) ?_
  intro name _ _ v t t' a a' _ ht ha
  exact ht.define Function.injective_id name ha

/-- A call sees what is seen where it is made. -/
lemma callFrame_butCaptured (limit : Option Nat) (env : FrameId) {c c' : Closure}
    {args args' : List Value} (hs : s.Alike (fun _ => id) Value.SameButCaptured s')
    (hc : c.SameButCaptured c') (hargs : List.Forall₂ Value.SameButCaptured args args') :
    (Config.callFrame ⟨.flat, limit⟩ s env c args).Alike id Value.SameButCaptured
      (Config.callFrame ⟨.flat, limit⟩ s' env c' args') := by
  have hentries : List.Forall₂ (Entry.Alike id Value.SameButCaptured) (c.params.zip args)
      (c'.params.zip args') := by
    simpa [hc.params] using zip_alike (ρ := id) c.params hargs
  exact hs.snapshot Function.injective_id env hentries

/-- Under flat scoping, the frames in which closures were made are not noticed. -/
lemma sound_butCaptured (limit : Option Nat) :
    butCaptured.Sound ⟨.flat, limit⟩ ⟨.flat, limit⟩ where
  limit := rfl
  nowhere := rfl
  env h := by rw [h.1]
  next h := h.next_eq
  print := by
    rintro _ o _ v v' rfl hv
    rw [Value.Matches.indiscernible.text_eq (fun _ _ hc => hc.params) hv]
    rfl
  form := by
    rintro _ s s' site site' form form' hs ⟨rfl, rfl⟩
    exact form_butCaptured site' form' hs
  params h := congrArg List.length h.params
  enter := by
    intro _ s s' c c' args args' env hs hc hargs _
    have hframe := callFrame_butCaptured limit env hs hc hargs
    exact ⟨(), le_rfl, hs.push (fun _ _ => rfl) hframe, by rw [hc.source], hc.body⟩

end Correspondence

/-- Outcomes that correspond are the same, as long as no sources are read. -/
lemma Outcome.SameButCaptured.of_outcomes {m m' : EvalM Value} {s s' : State}
    (hm : m.Keeps fun s t => t.sources = s.sources)
    (hm' : m'.Keeps fun s t => t.sources = s.sources) (h : s.SameButCaptured s')
    (houtcomes : Correspondence.butCaptured.Outcomes () (fun _ => Value.SameButCaptured) (m s)
      (m' s')) : (m s).SameButCaptured (m' s') := by
  have hstates {t t' : State} (ht : (m s).state? = some t) (ht' : (m' s').state? = some t')
      (hrel : Correspondence.butCaptured.States () t t') : t.SameButCaptured t' :=
    ⟨hrel.objects, by rw [hm s t ht, hm' s' t' ht', h.sources], hrel.depth, hrel.output, hrel.store⟩
  generalize m s = o, m' s' = o' at houtcomes hstates
  cases houtcomes with
  | ok _ states values => exact .ok values (hstates rfl rfl states)
  | error _ states errors =>
    rw [errors.eq]
    exact .error _ (hstates rfl rfl states)
  | exhausted => exact .exhausted

/-- Under flat scoping, the frames in which closures were made are never consulted: from states that
are the same but for these frames, evaluations and calls end in the same way but for them. -/
theorem evaluator_flat_ignores_captured [Machine] (limit : Option Nat) (fuel : Nat) (s s' : State)
    (h : s.SameButCaptured s') :
    (∀ site form, (eval ⟨.flat, limit⟩ fuel site form s).SameButCaptured
      (eval ⟨.flat, limit⟩ fuel site form s')) ∧
    ∀ env callee callee' args args', Value.SameButCaptured callee callee' →
      List.Forall₂ Value.SameButCaptured args args' →
        (call ⟨.flat, limit⟩ fuel env callee args s).SameButCaptured
          (call ⟨.flat, limit⟩ fuel env callee' args' s') := by
  have hs : Correspondence.butCaptured.States () s s' := ⟨h.objects, h.depth, h.output, h.store⟩
  have hsteps := (Correspondence.sound_butCaptured limit).evaluator fuel
  obtain ⟨heval, hcall⟩ := respected_sources.keeps ⟨.flat, limit⟩ fuel
  constructor
  · intro site form
    exact .of_outcomes (heval site form) (heval site form) h
      (hsteps.eval ⟨rfl, rfl⟩ hs)
  · intro env callee callee' args args' hcallee hargs
    exact .of_outcomes (hcall env callee args) (hcall env callee' args') h
      (hsteps.call hcallee hargs hs)

section

open scoped Machine

/-- The closure `f` sees the `x` of the frame from which it is called, wherever it was made. -/
theorem evaluator_flat_ignores_captured_elsewhere :
    let f (env : FrameId) : Value := .closure (.fresh 0) ⟨[], .symbol "x" ⟨8, 9⟩, 0, env⟩
    let s (env : FrameId) : State := {
      store := (((({} : Store).push {}).define 0 "x" (.int 1)).define 0 "f" (f env)).push {}
      objects := 1 }
    let form : Form := .list [.symbol "f" ⟨1, 2⟩] ⟨0, 3⟩
    (s 0).SameButCaptured (s 1) ∧
      (eval ⟨.flat, none⟩ 3 ⟨0, 0⟩ form (s 0)).SameButCaptured
        (eval ⟨.flat, none⟩ 3 ⟨0, 0⟩ form (s 1)) ∧
      (Run.ofOutcome (eval ⟨.flat, none⟩ 3 ⟨0, 0⟩ form (s 1))).map Run.output = some "1" := by
  intro f s form
  have hf : Value.SameButCaptured (f 0) (f 1) := .closure ⟨rfl, trivial⟩ ⟨rfl, rfl, rfl⟩
  have hs : (s 0).SameButCaptured (s 1) := by
    have hframe : Frame.Alike id Value.SameButCaptured {} {} := ⟨.empty, rfl⟩
    have hstore : (({} : Store).push {}).Alike (fun _ => id) Value.SameButCaptured
        (({} : Store).push {}) := Store.Alike.empty.push (fun _ _ => rfl) hframe
    have hx := @Store.Alike.define _ _ _ _ 0 hstore Function.injective_id "x" _ _ (.int 1)
    have hboth := @Store.Alike.define _ _ _ _ 0 hx Function.injective_id "f" _ _ hf
    exact ⟨rfl, rfl, rfl, rfl, hboth.push (fun _ _ => rfl) hframe⟩
  exact ⟨hs, (evaluator_flat_ignores_captured none 3 _ _ hs).1 ⟨0, 0⟩ form, by decide +kernel⟩

end

/-! ## Lexical scoping -/

section Step

variable {eval : Site → Form → EvalM Value} {call : FrameId → Value → List Value → EvalM Value}
variable {env env' : FrameId}

/-- A primitive procedure does nothing in the frame from which it is called but to call others. -/
lemma callPrimitive_site [Machine] (h : call env = call env') (p : Primitive) (args : List Value) :
    callPrimitive call env p args = callPrimitive call env' p args := by
  have happly : applyBody call env = applyBody call env' := by
    funext f list
    simp only [applyBody, h]
  have hmap : mapBody call env = mapBody call env' := by
    funext f list lists
    simp only [mapBody, h]
  simp only [callPrimitive, Primitive.body, happly, hmap]

/-- The body of a closure is evaluated inside the frame in which the closure was made. -/
lemma callValue_lexical [Machine] (h : call env = call env') (limit : Option Nat) (callee : Value)
    (args : List Value) :
    callValue eval call ⟨.lexical, limit⟩ env callee args =
      callValue eval call ⟨.lexical, limit⟩ env' callee args := by
  cases callee with
  | primitive p => exact callPrimitive_site h p args
  | closure id c => rfl
  | _ => rfl

end Step

/-- Under lexical scoping it does not matter from which frame a procedure is called. -/
theorem call_lexical_ignores_site [Machine] (limit : Option Nat) (fuel : Nat) (env env' : FrameId)
    (callee : Value) (args : List Value) (s : State) :
    call ⟨.lexical, limit⟩ fuel env callee args s =
      call ⟨.lexical, limit⟩ fuel env' callee args s := by
  induction fuel generalizing callee args s with
  | zero => rfl
  | succ fuel ih =>
    have hcall : call ⟨.lexical, limit⟩ fuel env = call ⟨.lexical, limit⟩ fuel env' := by
      funext callee args s
      exact ih callee args s
    exact congrFun (callValue_lexical hcall limit callee args) s

end SmallLisp
