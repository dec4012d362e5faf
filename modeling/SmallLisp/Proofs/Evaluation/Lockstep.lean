import SmallLisp.Proofs.Evaluation.Closures
import SmallLisp.Proofs.Evaluation.Run

/-!
# Evaluators in lockstep

Two evaluators of the same program that make their frames in different ways can still do the same
steps.  `Lockstep` says what has to be shown of the two ways: a relation between their stores that
definitions keep, what has to hold of a frame so that a form can be evaluated in it or a call be
made from it, and that all this holds in the frames that are made for a call.  Then every evaluation
of a part of the program has the same outcome in both, with the same values (`Lockstep.evaluator`).

On the way two facts about a single evaluator are carried along, because they say which closures can
be called and which forms can be evaluated: all closures are known (`Value.Known`), and an error is
tied to a part of the program (`EvalError.ArisesIn`).  An evaluator that is in lockstep with itself
has them.
-/

namespace SmallLisp

open EvalM

/-- The error is tied to a part of the program, or to no place at all. -/
def EvalError.ArisesIn (program : List Form) : EvalError → Prop
  | unbound name span => .symbol name span ∈ Form.nodesAll program
  | notCallable _ span | malformed _ span => ∃ node ∈ Form.nodesAll program, node.span = span
  | arityMismatch .. | primitive .. | depthExceeded _ => True

/-! ## Related states and outcomes -/

/-- The states are the same up to their stores, which are related. -/
structure State.Alike (program : List Form) (R : Store → Store → Prop) (s s' : State) : Prop where
  objects : s'.objects = s.objects
  depth : s'.depth = s.depth
  output : s'.output = s.output
  known : s.store.Known program
  store : R s.store s'.store

/-- The outcomes are the same up to the stores.  Of a result, `post` holds in them. -/
inductive Outcome.Alike (program : List Form) (R : Store → Store → Prop) {α : Type}
    (post : α → Store → Store → Prop) : Outcome α → Outcome α → Prop
  | ok {a : α} {t t' : State} (states : t.Alike program R t') (holds : post a t.store t'.store) :
      Alike program R post (.ok a t) (.ok a t')
  | error {e : EvalError} {t t' : State} (states : t.Alike program R t')
      (arises : e.ArisesIn program) : Alike program R post (.error e t) (.error e t')
  | exhausted : Alike program R post .exhausted .exhausted

namespace Outcome.Alike

variable {program : List Form} {R : Store → Store → Prop} {α β : Type} {s s' : State}

lemma bind {m m' : EvalM α} {f f' : α → EvalM β} {post : α → Store → Store → Prop}
    {post' : β → Store → Store → Prop} (hm : (m s).Alike program R post (m' s'))
    (hf : ∀ a t t', m s = .ok a t → m' s' = .ok a t' → t.Alike program R t' →
      post a t.store t'.store → (f a t).Alike program R post' (f' a t')) :
    ((m >>= f) s).Alike program R post' ((m' >>= f') s') := by
  change (EvalM.bind m f s).Alike program R post' (EvalM.bind m' f' s')
  unfold EvalM.bind
  cases ho : m s with
  | ok a t =>
    cases ho' : m' s' with
    | ok a' t' =>
      rw [ho, ho'] at hm
      cases hm with
      | ok states holds => exact hf a t t' ho ho' states holds
    | error | exhausted =>
      rw [ho, ho'] at hm
      cases hm
  | error e t =>
    rw [ho] at hm
    generalize m' s' = o' at hm
    cases hm with
    | error states arises => exact .error states arises
  | exhausted =>
    rw [ho] at hm
    generalize m' s' = o' at hm
    cases hm
    exact .exhausted

/-- More may be known about the results from the evaluations that have them. -/
lemma strengthen {post post' : α → Store → Store → Prop} {o o' : Outcome α}
    (h : o.Alike program R post o') (hpost : ∀ a t t', o = .ok a t → o' = .ok a t' →
      R t.store t'.store → post a t.store t'.store → post' a t.store t'.store) :
    o.Alike program R post' o' := by
  cases h with
  | ok states holds => exact .ok states (hpost _ _ _ rfl rfl states.store holds)
  | error states arises => exact .error states arises
  | exhausted => exact .exhausted

/-- After a check for a fault the states are as before. -/
lemma orFault_bind {p : Primitive} {result : Except Fault α} {f f' : α → EvalM β}
    {post : β → Store → Store → Prop} (hs : s.Alike program R s')
    (hf : ∀ a, result = .ok a → (f a s).Alike program R post (f' a s')) :
    ((orFault p result >>= f) s).Alike program R post ((orFault p result >>= f') s') := by
  cases result with
  | ok a => exact hf a rfl
  | error fault => exact .error hs trivial

/-- Objects that are made in states that are alike are the same. -/
lemma make (object : Identity → Value) (hs : s.Alike program R s')
    (hknown : ∀ id, (object id).Known program s.store.next) :
    (EvalM.update (fun s => (object s.fresh.1, s.fresh.2)) s).Alike program R
      (fun v t _ => v.Known program t.next)
      (EvalM.update (fun s => (object s.fresh.1, s.fresh.2)) s') := by
  simp only [EvalM.update, State.fresh, hs.objects]
  exact .ok ⟨rfl, hs.depth, hs.output, hs.known, hs.store⟩ (hknown _)

lemma allocate {answer : Answer} (hs : s.Alike program R s')
    (hknown : (s.allocate answer).1.Known program s.store.next) :
    (EvalM.update (·.allocate answer) s).Alike program R (fun v t _ => v.Known program t.next)
      (EvalM.update (·.allocate answer) s') := by
  cases answer with
  | value v => exact .ok hs hknown
  | string text => exact make (.str · text) hs fun _ => hknown
  | list items => exact make (.list · items) hs fun _ => hknown

/-- Leaving a call is the same in states that are alike. -/
lemma leave {post : α → Store → Store → Prop} {o o' : Outcome α}
    (h : o.Alike program R post o') : o.leave.Alike program R post o'.leave := by
  have hleave {t t' : State} (ht : t.Alike program R t') :
      State.Alike program R { t with depth := t.depth - 1 } { t' with depth := t'.depth - 1 } :=
    ⟨ht.objects, congrArg (· - 1) ht.depth, ht.output, ht.known, ht.store⟩
  cases h with
  | ok states holds => exact .ok (hleave states) holds
  | error states arises => exact .error (hleave states) arises
  | exhausted => exact .exhausted

/-- A loop, where every member keeps what the next ones need. -/
lemma each (inv : Store → Store → Prop) {f f' : α → EvalM Value} {l : List α}
    (hf : ∀ a ∈ l, ∀ s s', s.Alike program R s' → inv s.store s'.store →
      (f a s).Alike program R
        (fun v t t' => v.Known program t.next ∧ s.store.next ≤ t.next ∧ inv t t') (f' a s'))
    (hs : s.Alike program R s') (hinv : inv s.store s'.store) :
    (EvalM.each f l s).Alike program R
      (fun vs t t' => (∀ v ∈ vs, v.Known program t.next) ∧ s.store.next ≤ t.next ∧ inv t t')
      (EvalM.each f' l s') := by
  induction l generalizing s s' with
  | nil => exact .ok hs ⟨by simp, Nat.le_refl _, hinv⟩
  | cons a rest ih =>
    refine bind (hf a List.mem_cons_self s s' hs hinv) fun v t t' _ _ ht ⟨hv, hst, hinvt⟩ => ?_
    refine bind (ih (fun b hb => hf b (List.mem_cons_of_mem _ hb)) ht hinvt)
      fun vs u u' _ _ hu ⟨hvs, htu, hinvu⟩ => ?_
    exact .ok hu ⟨List.forall_mem_cons.mpr ⟨hv.mono htu, hvs⟩, Nat.le_trans hst htu, hinvu⟩

/-- If all members of a loop are alike, then so is the last one. -/
lemma sequence {f f' : α → EvalM Value} {l : List α} {inv : Store → Store → Prop}
    (h : (EvalM.each f l s).Alike program R
      (fun vs t t' => (∀ v ∈ vs, v.Known program t.next) ∧ inv t t') (EvalM.each f' l s')) :
    (EvalM.sequence f .nil l s).Alike program R (fun v t _ => v.Known program t.next)
      (EvalM.sequence f' .nil l s') := by
  rw [sequence_eq_each, sequence_eq_each]
  refine h.bind fun vs t t' _ _ ht ⟨hvs, _⟩ => .ok ht ?_
  rcases List.mem_cons.mp (List.getLastD_mem_cons (l := vs) (a := Value.nil)) with hlast | hlast
  · rw [hlast]
    exact Value.known_of_closures_eq_nil rfl
  · exact hvs _ hlast

end Outcome.Alike

/-! ## Lockstep -/

/-- Two ways of making frames under which the parts of a program are evaluated alike.  `R` relates
the stores; `view env form` is what the evaluation of the form in the frame `env` needs, and
`caller env` what a call from there needs. -/
structure Lockstep (program : List Form) (config config' : Config) (R : Store → Store → Prop)
    (view : FrameId → Form → Store → Store → Prop) (caller : FrameId → Store → Store → Prop) :
    Prop where
  limit : config'.maxDepth = config.maxDepth
  next : ∀ {s s'}, R s s' → s'.next = s.next
  /-- A symbol has the same value in both. -/
  lookup : ∀ {env name span s s'}, R s s' → view env (.symbol name span) s s' →
    s'.lookup env name = s.lookup env name
  define : ∀ {env name form items span s s'}, R s s' → view env (.list items span) s s' →
    Shape.Written items (.define name form) → ∀ v, R (s.define env name v) (s'.define env name v)
  part : ∀ {env form items span s s'}, view env (.list items span) s s' →
    Form.isLambda items = false → form ∈ Form.operands items → view env form s s'
  calls : ∀ {env form s s'}, view env form s s' → caller env s s'
  exists_frame : ∀ {env s s'}, caller env s s' → env < s.next
  /-- Evaluating the form, or a part of it, takes away nothing that is needed for the rest. -/
  view_stable : ∀ {env form s s' t t'}, view env form s s' → R t t' →
    s.ChangedAt env form.targets t → s'.ChangedAt env form.targets t' → view env form t t'
  caller_stable : ∀ {env s s' t t'}, caller env s s' → R t t' → s.Unchanged t → s'.Unchanged t' →
    caller env t t'
  /-- The new frames for a call are related, and the body can be evaluated in them. -/
  enter : ∀ {env c args s s'}, R s s' → caller env s s' → c.Known program s.next →
    args.length = c.params.length →
      let t := s.push (config.callFrame s env c args)
      let t' := s'.push (config'.callFrame s' env c args)
      R t t' ∧ view s.next c.body t t'

namespace Lockstep

variable {program : List Form} {config config' : Config} {R : Store → Store → Prop}
variable {view : FrameId → Form → Store → Store → Prop} {caller : FrameId → Store → Store → Prop}
variable {eval eval' : Site → Form → EvalM Value}
variable {call call' : FrameId → Value → List Value → EvalM Value}

/-- The results of evaluations and calls are known. -/
abbrev Result (program : List Form) (v : Value) (t _ : Store) : Prop := v.Known program t.next

/-- The parts of the program are evaluated alike, and calls are alike. -/
structure Steps (program : List Form) (R : Store → Store → Prop)
    (view : FrameId → Form → Store → Store → Prop) (caller : FrameId → Store → Store → Prop)
    (eval eval' : Site → Form → EvalM Value)
    (call call' : FrameId → Value → List Value → EvalM Value) : Prop where
  eval_alike : ∀ {site form s s'}, form ∈ Form.partsAll program → s.Alike program R s' →
    view site.env form s.store s'.store →
      (eval site form s).Alike program R (Result program) (eval' site form s')
  call_alike : ∀ {env callee args s s'}, callee.isProcedure → callee.Known program s.store.next →
    (∀ v ∈ args, v.Known program s.store.next) → s.Alike program R s' →
    caller env s.store s'.store →
      (call env callee args s).Alike program R (Result program) (call' env callee args s')
  isolated : Isolated eval call
  isolated' : Isolated eval' call'

namespace Steps

variable (hstep : Lockstep program config config' R view caller)
variable (h : Steps program R view caller eval eval' call call')
include hstep h

omit hstep in
/-- A form is evaluated, which changes the two stores at its targets only. -/
lemma eval_changes {site : Site} {form : Form} {names : List String} {s s' : State}
    (hform : form ∈ Form.partsAll program) (hs : s.Alike program R s')
    (hview : view site.env form s.store s'.store) (htargets : form.targets ⊆ names) :
    (eval site form s).Alike program R
      (fun v t t' => v.Known program t.next ∧ s.store.ChangedAt site.env names t ∧
        s'.store.ChangedAt site.env names t') (eval' site form s') := by
  refine (h.eval_alike hform hs hview).strengthen fun v t t' ht ht' _ hv => ⟨hv, ?_, ?_⟩
  · exact h.isolated.eval_keeps_of_subset htargets s t (by rw [ht]; rfl)
  · exact h.isolated'.eval_keeps_of_subset htargets s' t' (by rw [ht']; rfl)

/-- An operand of a form is evaluated, and then the other operands still can be. -/
lemma operand {site : Site} {items : List Form} {span : Span} {form : Form} {s s' : State}
    (hlist : .list items span ∈ Form.partsAll program) (hplain : Form.isLambda items = false)
    (hform : form ∈ Form.operands items) (hs : s.Alike program R s')
    (hview : view site.env (.list items span) s.store s'.store) :
    (eval site form s).Alike program R
      (fun v t t' => v.Known program t.next ∧ s.store.next ≤ t.next ∧
        view site.env (.list items span) t t') (eval' site form s') := by
  have htargets : form.targets ⊆ (Form.list items span).targets :=
    Form.targets_subset_targets_list hplain (Form.operands_subset items hform)
  refine (h.eval_changes (Form.mem_partsAll_of_operand hlist hform) hs
    (hstep.part hview hplain hform) htargets).strengthen fun v t t' _ _ hR ⟨hv, hst, hst'⟩ => ?_
  exact ⟨hv, hst.grows, hstep.view_stable hview hR hst hst'⟩

/-- Several operands of a form are evaluated one after the other. -/
lemma operands {site : Site} {items forms : List Form} {span : Span} {s s' : State}
    (hlist : .list items span ∈ Form.partsAll program) (hplain : Form.isLambda items = false)
    (hforms : forms ⊆ Form.operands items) (hs : s.Alike program R s')
    (hview : view site.env (.list items span) s.store s'.store) :
    (each (eval site) forms s).Alike program R
      (fun vs t t' => (∀ v ∈ vs, v.Known program t.next) ∧ s.store.next ≤ t.next ∧
        view site.env (.list items span) t t') (each (eval' site) forms s') :=
  Outcome.Alike.each (view site.env (.list items span))
    (fun _ hform _ _ hs hview => h.operand hstep hlist hplain (hforms hform) hs hview) hs hview

lemma evalShape {site : Site} {items : List Form} {span : Span} {shape : Shape} {s s' : State}
    (hlist : .list items span ∈ Form.partsAll program)
    (hshape : Shape.ofList span items = .ok shape) (hs : s.Alike program R s')
    (hview : view site.env (.list items span) s.store s'.store) :
    (evalShape eval call site shape s).Alike program R (Result program)
      (SmallLisp.evalShape eval' call' site shape s') := by
  have hwritten := Shape.written_of_ofList hshape
  cases hwritten with
  | @lambda at₁ at₂ params names body distinct =>
    have hframe := hstep.exists_frame (hstep.calls hview)
    refine Outcome.Alike.make (.closure · ⟨names, body, site.source, site.env⟩) hs fun id c hc => ?_
    obtain rfl := List.mem_singleton.mp hc
    exact ⟨hframe, Form.mem_lambdas hlist hshape⟩
  | @conditional at₁ condition consequent alternative =>
    have hoperands : Form.operands (.symbol "if" at₁ :: condition :: consequent ::
        alternative.toList) = condition :: consequent :: alternative.toList := rfl
    refine (h.operand hstep hlist rfl (by simp [hoperands]) hs hview).bind
      fun v t t' _ _ ht ⟨_, _, hview⟩ => ?_
    have hbranch {form : Form} (hform : form ∈ consequent :: alternative.toList) :
        (eval site form t).Alike program R (Result program) (eval' site form t') := by
      have hform := hoperands ▸ List.mem_cons_of_mem condition hform
      exact (h.operand hstep hlist rfl hform ht hview).strengthen fun _ _ _ _ _ _ hv => hv.1
    split
    · exact hbranch List.mem_cons_self
    · cases alternative with
      | none => exact .ok ht (Value.known_of_closures_eq_nil rfl)
      | some form => exact hbranch (by simp)
  | @define at₁ at₂ name form =>
    have hoperands : Form.operands [.symbol "define" at₁, .symbol name at₂, form] =
        [.symbol name at₂, form] := rfl
    refine (h.operand hstep hlist rfl (by simp [hoperands]) hs hview).bind
      fun v t t' _ _ ht ⟨hv, _, hview⟩ => ?_
    refine .ok ⟨ht.objects, ht.depth, ht.output, ht.known.define hv, ?_⟩
      (Value.known_of_closures_eq_nil rfl)
    exact hstep.define ht.store hview .define v
  | @sequence at₁ forms =>
    exact (h.operands hstep hlist rfl (List.Subset.refl forms) hs hview).sequence
  | @call head args plain =>
    have hplain : Form.isLambda (head :: args) = false := Form.isLambda_of_plain plain
    have hoperands : Form.operands (head :: args) = head :: args := Form.operands_of_plain plain
    have hhead : head ∈ Form.operands (head :: args) := by simp [hoperands]
    refine (h.operand hstep hlist hplain hhead hs hview).bind
      fun callee t t' _ _ ht ⟨hcallee, _, hview⟩ => ?_
    split
    · next hproc =>
      refine (h.operands hstep hlist hplain (by simp [hoperands]) ht hview).bind
        fun vs u u' _ _ hu ⟨hvs, htu, hview⟩ => ?_
      exact h.call_alike hproc (hcallee.mono htu) hvs hu (hstep.calls hview)
    · have hhead := Form.mem_partsAll_of_operand hlist hhead
      exact .error ht ⟨head, Form.partsFrom_subset_nodesAll program 0 hhead, rfl⟩

lemma evalForm {site : Site} {form : Form} {s s' : State} (hform : form ∈ Form.partsAll program)
    (hs : s.Alike program R s') (hview : view site.env form s.store s'.store) :
    (evalForm eval call site form s).Alike program R (Result program)
      (SmallLisp.evalForm eval' call' site form s') := by
  cases form with
  | int | float | str => exact .ok hs (Value.known_of_closures_eq_nil rfl)
  | symbol name span =>
    simp only [SmallLisp.evalForm, resolve, hstep.lookup hs.store hview]
    cases hvalue : s.store.lookup site.env name with
    | some v => exact .ok hs (hs.known.lookup hvalue)
    | none => exact .error hs (Form.partsFrom_subset_nodesAll program 0 hform)
  | list items span =>
    simp only [SmallLisp.evalForm]
    cases hshape : Shape.ofList span items with
    | ok shape => exact h.evalShape hstep hform hshape hs hview
    | error e =>
      obtain ⟨node, hnode, hplace⟩ := Shape.exists_node_of_error hshape
      have hlist := Form.partsFrom_subset_nodesAll program 0 hform
      exact .error hs ⟨node, Form.nodes_subset_nodesAll hlist hnode, hplace⟩

/-! ### Calls -/

/-- A call is made, and then further calls can be made from the same frame. -/
lemma call_again {env : FrameId} {f : Value} {args : List Value} {s s' : State}
    (hproc : f.isProcedure) (hf : f.Known program s.store.next)
    (hargs : ∀ v ∈ args, v.Known program s.store.next) (hs : s.Alike program R s')
    (hcaller : caller env s.store s'.store) :
    (call env f args s).Alike program R
      (fun v t t' => v.Known program t.next ∧ s.store.next ≤ t.next ∧ caller env t t')
      (call' env f args s') := by
  refine (h.call_alike hproc hf hargs hs hcaller).strengthen fun v t t' ht ht' hR hv => ?_
  have hkept := h.isolated.call_keeps env f args s t (by rw [ht]; rfl)
  have hkept' := h.isolated'.call_keeps env f args s' t' (by rw [ht']; rfl)
  exact ⟨hv, hkept.grows, hstep.caller_stable hcaller hR hkept hkept'⟩

omit hstep in
lemma applyBody {env : FrameId} {f list : Value} {s s' : State}
    (hf : f.Known program s.store.next) (hlist : list.Known program s.store.next)
    (hs : s.Alike program R s') (hcaller : caller env s.store s'.store) :
    (applyBody call env f list s).Alike program R (Result program)
      (SmallLisp.applyBody call' env f list s') := by
  unfold SmallLisp.applyBody
  split
  · next hproc =>
    refine Outcome.Alike.orFault_bind hs fun items hitems => ?_
    obtain ⟨id, rfl⟩ := Lists.eq_list_of_second hitems
    cases hitems
    exact h.call_alike hproc hf (Value.known_list_iff.mp hlist) hs hcaller
  · exact .error hs trivial

lemma mapBody {env : FrameId} {f list : Value} {lists : List Value} {s s' : State}
    (hf : f.Known program s.store.next) (hlist : list.Known program s.store.next)
    (hlists : ∀ v ∈ lists, v.Known program s.store.next)
    (hs : s.Alike program R s') (hcaller : caller env s.store s'.store) :
    (mapBody call env f list lists s).Alike program R (Result program)
      (SmallLisp.mapBody call' env f list lists s') := by
  simp only [SmallLisp.mapBody, each_orFault]
  split
  · next hproc =>
    refine Outcome.Alike.orFault_bind hs fun first hfirst => ?_
    refine Outcome.Alike.orFault_bind hs fun others hothers => ?_
    obtain ⟨id, rfl⟩ := Lists.eq_list_of_argument hfirst
    have hcolumn : ∀ column ∈ Lists.columns first others, ∀ v ∈ column,
        v.Known program s.store.next := by
      refine Lists.forall_columns ?_ fun row hrow => ?_
      · cases hfirst
        exact Value.known_list_iff.mp hlist
      · obtain ⟨id, hid⟩ := Lists.exists_list_of_mem_rows hothers hrow
        exact Value.known_list_iff.mp (hlists _ hid)
    have heach := Outcome.Alike.each (fun t t' => s.store.next ≤ t.next ∧ caller env t t')
      (fun column hmem u u' hu hbefore =>
        (h.call_again hstep hproc (hf.mono hbefore.1)
          (fun v hv => (hcolumn column hmem v hv).mono hbefore.1) hu hbefore.2).strengthen
            fun v t t' _ _ _ hafter => ⟨hafter.1, hafter.2.1,
              Nat.le_trans hbefore.1 hafter.2.1, hafter.2.2⟩) hs ⟨Nat.le_refl _, hcaller⟩
    refine heach.bind fun vs t t' _ _ ht hvalues => ?_
    exact Outcome.Alike.make (.list · vs) ht fun id => Value.known_list_iff.mpr hvalues.1
  · exact .error hs trivial

lemma callPrimitive [Machine] {env : FrameId} {p : Primitive} {args : List Value} {s s' : State}
    (hargs : ∀ v ∈ args, v.Known program s.store.next) (hs : s.Alike program R s')
    (hcaller : caller env s.store s'.store) :
    (callPrimitive call env p args s).Alike program R (Result program)
      (SmallLisp.callPrimitive call' env p args s') := by
  rcases Primitive.called_or_refused call env p args with ⟨m, -, hcalled⟩ | hrefused
  · cases hcalled with
    | operation meaning run =>
      simp only [Primitive.callPrimitive_of_operation meaning run]
      refine Outcome.Alike.orFault_bind hs fun answer hanswer => ?_
      subst hanswer
      exact Outcome.Alike.allocate hs (Answer.known_of_operation meaning run hargs s)
    | application f list => exact h.applyBody (hargs f (by simp)) (hargs list (by simp)) hs hcaller
    | mapping f list lists =>
      exact h.mapBody hstep (hargs f (by simp)) (hargs list (by simp))
        (fun v hv => hargs v (by simp [hv])) hs hcaller
    | printing v =>
      exact .ok ⟨hs.objects, hs.depth, by rw [hs.output], hs.known, hs.store⟩
        (Value.known_of_closures_eq_nil rfl)
  · rw [Primitive.callPrimitive_of_refused hrefused, Primitive.callPrimitive_of_refused hrefused]
    exact .error hs trivial

lemma callClosure {env : FrameId} {c : Closure} {args : List Value} {s s' : State}
    (hc : c.Known program s.store.next) (hargs : ∀ v ∈ args, v.Known program s.store.next)
    (hs : s.Alike program R s') (hcaller : caller env s.store s'.store) :
    (callClosure eval config env c args s).Alike program R (Result program)
      (SmallLisp.callClosure eval' config' env c args s') := by
  have hreached : config'.reached? s'.depth = config.reached? s.depth := by
    rw [Config.reached?, Config.reached?, hs.depth, hstep.limit]
  by_cases hcount : args.length = c.params.length
  · cases hfree : config.reached? s.depth with
    | some limit =>
      rw [Task.callClosure_of_reached hcount hfree,
        Task.callClosure_of_reached hcount (hreached.trans hfree)]
      exact .error hs trivial
    | none =>
      rw [Task.callClosure_apply hcount hfree,
        Task.callClosure_apply hcount (hreached.trans hfree), hstep.next hs.store]
      obtain ⟨hR, hview⟩ := hstep.enter hs.store hcaller hc hcount
      have henter : (config.enter env c args s).Alike program R (config'.enter env c args s') :=
        ⟨hs.objects, congrArg (· + 1) hs.depth, hs.output,
          hs.known.push (hs.known.callFrame config c hargs), hR⟩
      exact (h.eval_alike (Form.body_mem_of_mem_lambdas hc.form) henter hview).leave
  · rw [Task.callClosure_of_count hcount, Task.callClosure_of_count hcount]
    exact .error hs trivial

lemma callValue [Machine] {env : FrameId} {callee : Value} {args : List Value} {s s' : State}
    (hproc : callee.isProcedure) (hcallee : callee.Known program s.store.next)
    (hargs : ∀ v ∈ args, v.Known program s.store.next) (hs : s.Alike program R s')
    (hcaller : caller env s.store s'.store) :
    (callValue eval call config env callee args s).Alike program R (Result program)
      (SmallLisp.callValue eval' call' config' env callee args s') := by
  cases callee with
  | primitive p => exact h.callPrimitive hstep hargs hs hcaller
  | closure id c =>
    exact h.callClosure hstep (hcallee c List.mem_cons_self) hargs hs hcaller
  | _ => cases hproc

end Steps

/-! ## Whole evaluations -/

/-- Evaluators in lockstep evaluate the parts of the program alike, and make calls alike. -/
theorem evaluator [Machine] (hstep : Lockstep program config config' R view caller) (n : Nat) :
    Steps program R view caller (SmallLisp.eval config n) (SmallLisp.eval config' n)
      (SmallLisp.call config n) (SmallLisp.call config' n) := by
  induction n with
  | zero =>
    exact ⟨fun _ _ _ => .exhausted, fun _ _ _ _ _ => .exhausted, isolated_evaluator config 0,
      isolated_evaluator config' 0⟩
  | succ n ih =>
    exact ⟨ih.evalForm hstep, ih.callValue hstep, isolated_evaluator config (n + 1),
      isolated_evaluator config' (n + 1)⟩

/-! ## Programs -/

/-- The names of the prelude are bound to values without closures. -/
lemma known_definePrelude {s : Store} (h : s.Known program) (env : FrameId) :
    (s.definePrelude env).Known program := by
  have hprimitives := List.foldlRecOn (motive := Store.Known program) Primitive.all
    (fun s p => s.define env p.name (.primitive p)) h fun _ hs p _ =>
      hs.define (Value.known_of_closures_eq_nil rfl)
  exact hprimitives.define (Value.known_of_closures_eq_nil rfl)

lemma known_start (program : List Form) : Run.start.store.Known program := by
  have hempty : Store.Known program {} := by
    intro id frame x v hframe _
    cases hframe
  refine known_definePrelude (hempty.push ?_) 0
  rintro x v ⟨⟩

lemma next_start : Run.start.store.next = 1 := by cbv

/-- A program that is evaluated in lockstep has the same outcome. -/
theorem program_alike [Machine] (hstep : Lockstep program config config' R view caller)
    (hglobal : ∀ form ∈ program, ∀ s s', R s s' → 0 < s.next → view 0 form s s')
    (hstart : R Run.start.store Run.start.store) (fuel : Nat) :
    ((Task.sequence Run.site program).run config fuel Run.start).Alike program R (Result program)
      ((Task.sequence Run.site program).run config' fuel Run.start) := by
  have h := hstep.evaluator fuel
  have hs : Run.start.Alike program R Run.start := ⟨rfl, rfl, rfl, known_start program, hstart⟩
  have hforms form (hform : form ∈ program) s s' (hs : s.Alike program R s')
      (hnext : 0 < s.store.next) :
      (SmallLisp.eval config fuel Run.site form s).Alike program R
        (fun v t _ => v.Known program t.next ∧ s.store.next ≤ t.next ∧ 0 < t.next)
        (SmallLisp.eval config' fuel Run.site form s') := by
    have hmem : form ∈ Form.partsAll program :=
      Form.mem_partsFrom.mpr ⟨form, hform, form.mem_parts_self⟩
    refine (h.eval_changes hmem hs (hglobal form hform _ _ hs.store hnext)
      (List.Subset.refl _)).strengthen fun v t t' _ _ _ ⟨hv, hst, _⟩ => ?_
    exact ⟨hv, hst.grows, Nat.lt_of_lt_of_le hnext hst.grows⟩
  exact (Outcome.Alike.each (fun s _ => 0 < s.next) hforms hs
    (next_start ▸ Nat.zero_lt_one)).sequence

/-! ## One evaluator -/

/-- An evaluator is in lockstep with itself. -/
theorem refl (program : List Form) (config : Config) :
    Lockstep program config config (fun s s' => s' = s) (fun env _ s _ => env < s.next)
      (fun env s _ => env < s.next) where
  limit := rfl
  next h := by rw [h]
  lookup h _ := by rw [h]
  define h _ _ v := by rw [h]
  part h _ _ := h
  calls h := h
  exists_frame h := h
  view_stable h _ hchanged _ := Nat.lt_of_lt_of_le h hchanged.grows
  caller_stable h _ hkept _ := Nat.lt_of_lt_of_le h hkept.grows
  enter h _ _ _ := ⟨by rw [h], by simp⟩

end Lockstep

end SmallLisp
