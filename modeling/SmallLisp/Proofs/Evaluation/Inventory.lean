import SmallLisp.Proofs.Evaluation.Closures
import SmallLisp.Proofs.Evaluation.DepthLimit

/-!
# What is there all the time

An `Inventory` says something of the objects that there are, of the store and the number of objects
that were made, and of the code that is evaluated.  What it says is relative to a world, which may
only grow.  If single steps keep the inventory (`Inventory.Kept`), then it is right at the end of
every evaluation (`Inventory.Kept.evaluator`), and also at every point on the way, be the evaluation
one that ends or not (`Inventory.Kept.passes`).

An evaluation comes by objects in three ways: it makes them, it finds them bound, or they stand in
its code as literals.  Primitive procedures add nothing to that, because they conserve objects.
What is begun on the way is begun after other evaluations have ended, so the rest follows along
`Starts`.
-/

namespace SmallLisp

open EvalM

/-- In the course of the task, which is begun in the state `s`, something is begun or ends in this
state. -/
inductive Task.Passes [Machine] (config : Config) (t : Task) (s : State) : State → Prop
  | begins {k t' s'} (reached : Reaches config t s k t' s') : Passes config t s s'
  | ends {k t' s' n u} (reached : Reaches config t s k t' s')
      (ended : (t'.run config n s').state? = some u) : Passes config t s u

/-- What is to hold of everything an evaluation has to do with, in a world that may only grow. -/
structure Inventory (W : Type) [Preorder W] where
  /-- Of each object that a value consists of. -/
  object : W → Value → Prop
  /-- Of the store, and of the number of objects that were made. -/
  state : W → Store → Nat → Prop
  /-- Of a form at the site where it is evaluated. -/
  code : W → Site → Form → Prop
  object_mono : ∀ {v w o}, v ≤ w → object v o → object w o
  code_mono : ∀ {v w site form}, v ≤ w → code v site form → code w site form

namespace Inventory

variable {W : Type} [Preorder W] (I : Inventory W)

/-- All objects that the value consists of have the property. -/
def value (w : W) (v : Value) : Prop := ∀ o ∈ v.objects, I.object w o

/-- All that the task begins with has the property. -/
def task (w : W) : Task → Prop
  | .eval site form => I.code w site form
  | .sequence site forms => ∀ form ∈ forms, I.code w site form
  | .call _ callee args => ∀ v ∈ callee :: args, I.value w v

/-- The state has the property, whatever was printed and however deep it is in calls. -/
abbrev holds (w : W) (s : State) : Prop := I.state w s.store s.objects

/-- Under these settings, no step of an evaluation goes beyond the inventory. -/
structure Kept (config : Config) : Prop where
  lookup : ∀ {w s n env name v}, I.state w s n → s.lookup env name = some v → I.value w v
  part : ∀ {w site items span shape form}, I.code w site (.list items span) →
    Shape.ofList span items = .ok shape → form ∈ shape.evaluated → I.code w site form
  literal : ∀ {w site text span}, I.code w site (.str text span) →
    I.object w (.str (.literal site.source span) text)
  string : ∀ {w s n} (text : String), I.state w s n →
    ∃ v, w ≤ v ∧ I.state v s (n + 1) ∧ I.object v (.str (.fresh n) text)
  list : ∀ {w s n items}, I.state w s n → (∀ a ∈ items, I.value w a) →
    ∃ v, w ≤ v ∧ I.state v s (n + 1) ∧ I.object v (.list (.fresh n) items)
  lambda : ∀ {w s n site items span params body}, I.state w s n →
    I.code w site (.list items span) → Shape.ofList span items = .ok (.lambda params body) →
      ∃ v, w ≤ v ∧ I.state v s (n + 1) ∧
        I.object v (.closure (.fresh n) ⟨params, body, site.source, site.env⟩)
  define : ∀ {w s n site items span name form a}, I.state w s n →
    I.code w site (.list items span) → Shape.ofList span items = .ok (.define name form) →
      I.value w a → I.state w (s.define site.env name a) n
  /-- The frame for a call can be made, and the body be evaluated there. -/
  enter : ∀ {w s n id c args} (env : FrameId), I.state w s n → I.object w (.closure id c) →
    (∀ a ∈ args, I.value w a) → args.length = c.params.length →
      ∃ v, w ≤ v ∧ I.state v (s.push (config.callFrame s env c args)) n ∧
        I.code v ⟨c.source, s.next⟩ c.body

/-- The outcome has the property `post`, and the state that it leaves is in order, in a world that
has grown from `w`. -/
inductive Ends {α : Type} (w : W) (post : W → α → Prop) : Outcome α → Prop
  | ok {v : W} {a : α} {t : State} (grown : w ≤ v) (state : I.holds v t) (result : post v a) :
      Ends w post (.ok a t)
  | error {v : W} {e : EvalError} {t : State} (grown : w ≤ v) (state : I.holds v t) :
      Ends w post (.error e t)
  | exhausted : Ends w post .exhausted

variable {I} {v w : W} {s : State} {α β : Type}

lemma value_mono {a : Value} (hle : w ≤ v) (h : I.value w a) : I.value v a :=
  fun o ho => I.object_mono hle (h o ho)

/-- Values have the property if all objects in them do. -/
lemma objectsAll_iff {vs : List Value} :
    (∀ o ∈ Value.objectsAll vs, I.object w o) ↔ ∀ v ∈ vs, I.value w v := by
  simp only [value, Value.mem_objectsAll]
  exact ⟨fun h v hv o ho => h o ⟨v, hv, ho⟩, fun h o ⟨v, hv, ho⟩ => h v hv o ho⟩

lemma value_list_iff {id : Identity} {items : List Value} :
    I.value w (.list id items) ↔ I.object w (.list id items) ∧ ∀ v ∈ items, I.value w v := by
  rw [value, Value.objects, List.forall_mem_cons, objectsAll_iff]

/-- The columns that a procedure is called with hold elements of the lists. -/
lemma value_of_mem_columns {first column lists : List Value} {others : List (List Value)}
    (hfirst : ∀ a ∈ first, I.value w a) (hlists : ∀ l ∈ lists, I.value w l)
    (rows : lists.mapM Lists.argument = .ok others) (h : column ∈ Lists.columns first others) :
    ∀ a ∈ column, I.value w a := by
  refine Lists.forall_columns hfirst (fun row hrow => ?_) column h
  obtain ⟨id, hid⟩ := Lists.exists_list_of_mem_rows rows hrow
  exact (value_list_iff.mp (hlists _ hid)).2

/-! ## What is composed of parts in order -/

namespace Ends

lemma of_le {post : W → α → Prop} {o : Outcome α} (hle : w ≤ v) (h : I.Ends v post o) :
    I.Ends w post o := by
  cases h with
  | ok grown state result => exact .ok (hle.trans grown) state result
  | error grown state => exact .error (hle.trans grown) state
  | exhausted => exact .exhausted

lemma bind {post : W → α → Prop} {post' : W → β → Prop} {m : EvalM α} {f : α → EvalM β}
    (hm : I.Ends w post (m s))
    (hf : ∀ {v a t}, w ≤ v → I.holds v t → post v a → I.Ends v post' (f a t)) :
    I.Ends w post' ((m >>= f) s) := by
  change I.Ends w post' (EvalM.bind m f s)
  unfold EvalM.bind
  generalize m s = o at hm
  cases hm with
  | ok grown state result => exact (hf grown state result).of_le grown
  | error grown state => exact .error grown state
  | exhausted => exact .exhausted

/-- The members of a list are evaluated in turn, while the world grows from `w`. -/
lemma each {f : α → EvalM Value} {l : List α}
    (hf : ∀ {v a t}, w ≤ v → a ∈ l → I.holds v t → I.Ends v I.value (f a t)) (hle : w ≤ v)
    (hs : I.holds v s) :
    I.Ends v (fun u bs => ∀ b ∈ bs, I.value u b) (EvalM.each f l s) := by
  induction l generalizing v s with
  | nil => exact .ok le_rfl hs (by simp)
  | cons a l ih =>
    refine (hf hle List.mem_cons_self hs).bind fun {v' b t} hgrown ht hb => ?_
    have hrest := ih (fun hle hmem => hf hle (List.mem_cons_of_mem a hmem)) (hle.trans hgrown) ht
    refine hrest.bind fun hgrown' hu hbs => ?_
    exact .ok le_rfl hu (List.forall_mem_cons.mpr ⟨value_mono hgrown' hb, hbs⟩)

lemma sequence {f : α → EvalM Value} {l : List α} {last : Value}
    (hf : ∀ {v a t}, w ≤ v → a ∈ l → I.holds v t → I.Ends v I.value (f a t)) (hle : w ≤ v)
    (hs : I.holds v s) (hlast : I.value v last) :
    I.Ends v I.value (EvalM.sequence f last l s) := by
  induction l generalizing v s last with
  | nil => exact .ok le_rfl hs hlast
  | cons a l ih =>
    refine (hf hle List.mem_cons_self hs).bind fun hgrown ht hb => ?_
    exact ih (fun hle hmem => hf hle (List.mem_cons_of_mem a hmem)) (hle.trans hgrown) ht hb

/-- After a check, the state is as before. -/
lemma orFault_bind {p : Primitive} {result : Except Fault α} {post : W → β → Prop}
    {f : α → EvalM β} (hs : I.holds w s) (hf : ∀ a, result = .ok a → I.Ends w post (f a s)) :
    I.Ends w post ((orFault p result >>= f) s) := by
  cases result with
  | ok a => exact hf a rfl
  | error fault => exact .error le_rfl hs

/-- Leaving a call is no matter. -/
lemma leave {post : W → α → Prop} {o : Outcome α} (h : I.Ends w post o) :
    I.Ends w post o.leave := by
  cases h with
  | ok grown state result => exact .ok grown state result
  | error grown state => exact .error grown state
  | exhausted => exact .exhausted

end Ends

/-! ## One step -/

/-- What the evaluator gives is in order, if what it is given is. -/
structure Steps (I : Inventory W) (eval : Site → Form → EvalM Value)
    (call : FrameId → Value → List Value → EvalM Value) : Prop where
  eval : ∀ {w site form s}, I.code w site form → I.holds w s → I.Ends w I.value (eval site form s)
  call : ∀ {w env callee args s}, (∀ v ∈ callee :: args, I.value w v) → I.holds w s →
    I.Ends w I.value (call env callee args s)

namespace Steps

variable {config : Config} {eval : Site → Form → EvalM Value}
variable {call : FrameId → Value → List Value → EvalM Value} {site : Site} {env : FrameId}
variable (h : I.Steps eval call)
include h

/-- Forms are evaluated in turn. -/
lemma evalAll {forms : List Form} (hforms : ∀ form ∈ forms, I.code w site form)
    (hs : I.holds w s) :
    I.Ends w (fun v values => ∀ a ∈ values, I.value v a) (EvalM.each (eval site) forms s) :=
  Ends.each (fun hle hmem ht => h.eval (I.code_mono hle (hforms _ hmem)) ht) le_rfl hs

lemma evalSequence {forms : List Form} (hforms : ∀ form ∈ forms, I.code w site form)
    (hs : I.holds w s) : I.Ends w I.value (EvalM.sequence (eval site) .nil forms s) :=
  Ends.sequence (fun hle hmem ht => h.eval (I.code_mono hle (hforms _ hmem)) ht) le_rfl hs
    fun _ ho => by cases ho

/-- A procedure is called with columns of values in turn. -/
lemma callAll {f : Value} {columns : List (List Value)} (hf : I.value w f)
    (hcolumns : ∀ column ∈ columns, ∀ a ∈ column, I.value w a) (hs : I.holds w s) :
    I.Ends w (fun v values => ∀ a ∈ values, I.value v a)
      (EvalM.each (call env f) columns s) := by
  refine Ends.each (fun hle hmem ht => h.call ?_ ht) le_rfl hs
  refine List.forall_mem_cons.mpr ⟨value_mono hle hf, fun a ha => ?_⟩
  exact value_mono hle (hcolumns _ hmem a ha)

variable (hkept : I.Kept config)
include hkept

lemma evalShape {items : List Form} {span : Span} {shape : Shape}
    (hcode : I.code w site (.list items span)) (hshape : Shape.ofList span items = .ok shape)
    (hs : I.holds w s) : I.Ends w I.value (SmallLisp.evalShape eval call site shape s) := by
  have hpart {v : W} {form : Form} (hle : w ≤ v) (hform : form ∈ shape.evaluated) :
      I.code v site form :=
    I.code_mono hle (hkept.part hcode hshape hform)
  have hnil {v : W} {t : State} (ht : I.holds v t) : I.Ends v I.value (.ok .nil t) :=
    .ok le_rfl ht fun _ ho => by cases ho
  cases shape with
  | lambda params body =>
    obtain ⟨v, hgrown, hstate, hobject⟩ := hkept.lambda hs hcode hshape
    exact .ok hgrown hstate (List.forall_mem_singleton.mpr hobject)
  | conditional condition consequent alternative =>
    refine (h.eval (hpart le_rfl List.mem_cons_self) hs).bind fun hgrown ht _ => ?_
    split
    · exact h.eval (hpart hgrown (by simp [Shape.evaluated])) ht
    · cases alternative with
      | none => exact hnil ht
      | some form => exact h.eval (hpart hgrown (by simp [Shape.evaluated])) ht
  | define name form =>
    refine (h.eval (hpart le_rfl List.mem_cons_self) hs).bind fun {v a t} hgrown ht ha => ?_
    exact hnil (hkept.define ht (I.code_mono hgrown hcode) hshape ha)
  | sequence forms => exact h.evalSequence (fun form hform => hpart le_rfl hform) hs
  | call head args =>
    refine (h.eval (hpart le_rfl List.mem_cons_self) hs).bind fun hgrown ht hcallee => ?_
    split
    · refine (h.evalAll (fun form hform => hpart hgrown (List.mem_cons_of_mem _ hform)) ht).bind
        fun hgrown' hu hvalues => ?_
      exact h.call (List.forall_mem_cons.mpr ⟨value_mono hgrown' hcallee, hvalues⟩) hu
    · exact .error le_rfl ht

lemma evalForm {form : Form} (hcode : I.code w site form) (hs : I.holds w s) :
    I.Ends w I.value (SmallLisp.evalForm eval call site form s) := by
  cases form with
  | int | float => exact .ok le_rfl hs fun _ ho => by cases ho
  | str text span => exact .ok le_rfl hs (List.forall_mem_singleton.mpr (hkept.literal hcode))
  | symbol name span =>
    cases hname : s.store.lookup site.env name with
    | some value =>
      rw [SmallLisp.evalForm, resolve_of_some hname]
      exact .ok le_rfl hs (hkept.lookup hs hname)
    | none =>
      rw [SmallLisp.evalForm, resolve_of_none hname]
      exact .error le_rfl hs
  | list items span =>
    cases hshape : Shape.ofList span items with
    | ok shape =>
      simp only [SmallLisp.evalForm, hshape]
      exact h.evalShape hkept hcode hshape hs
    | error e =>
      simp only [SmallLisp.evalForm, hshape]
      exact .error le_rfl hs

omit h in
/-- A new string or list gets an identity, and the objects in it are known already. -/
lemma allocate {answer : Answer} (hanswer : ∀ o ∈ answer.objects, I.object w o)
    (hs : I.holds w s) : I.Ends w I.value (EvalM.update (·.allocate answer) s) := by
  cases answer with
  | value v => exact .ok le_rfl hs hanswer
  | string text =>
    obtain ⟨v, hgrown, hstate, hobject⟩ := hkept.string text hs
    exact .ok hgrown hstate (List.forall_mem_singleton.mpr hobject)
  | list items =>
    have hitems : ∀ a ∈ items, I.value w a := objectsAll_iff.mp hanswer
    obtain ⟨v, hgrown, hstate, hobject⟩ := hkept.list hs hitems
    exact .ok hgrown hstate
      (value_list_iff.mpr ⟨hobject, fun a ha => value_mono hgrown (hitems a ha)⟩)

omit hkept in
lemma applyBody {f list : Value} (hf : I.value w f) (hlist : I.value w list)
    (hs : I.holds w s) : I.Ends w I.value (SmallLisp.applyBody call env f list s) := by
  unfold SmallLisp.applyBody
  split
  · refine Ends.orFault_bind hs fun items hitems => ?_
    obtain ⟨id, rfl⟩ := Lists.eq_list_of_second hitems
    exact h.call (List.forall_mem_cons.mpr ⟨hf, (value_list_iff.mp hlist).2⟩) hs
  · exact .error le_rfl hs

lemma mapBody {f list : Value} {lists : List Value} (hf : I.value w f) (hlist : I.value w list)
    (hlists : ∀ l ∈ lists, I.value w l) (hs : I.holds w s) :
    I.Ends w I.value (SmallLisp.mapBody call env f list lists s) := by
  simp only [SmallLisp.mapBody, each_orFault]
  split
  · refine Ends.orFault_bind hs fun first hfirst => ?_
    refine Ends.orFault_bind hs fun others hothers => ?_
    obtain ⟨id, rfl⟩ := Lists.eq_list_of_argument hfirst
    have hcolumns : ∀ column ∈ Lists.columns first others, ∀ a ∈ column, I.value w a :=
      fun column hmem => value_of_mem_columns (value_list_iff.mp hlist).2 hlists hothers hmem
    refine (h.callAll hf hcolumns hs).bind fun {v results t} hgrown ht hresults => ?_
    have hanswer : ∀ o ∈ (Answer.list results).objects, I.object v o := objectsAll_iff.mpr hresults
    exact allocate hkept hanswer ht
  · exact .error le_rfl hs

lemma callPrimitive [Machine] {p : Primitive} {args : List Value} (hargs : ∀ a ∈ args, I.value w a)
    (hs : I.holds w s) : I.Ends w I.value (SmallLisp.callPrimitive call env p args s) := by
  rcases Primitive.called_or_refused call env p args with ⟨m, hm, hcalled⟩ | hrefused
  · rw [hm]
    cases hcalled with
    | @operation p body args result meaning run =>
      refine Ends.orFault_bind hs fun answer hanswer => ?_
      subst hanswer
      have hconserved := Primitive.conservative_of_operation meaning args answer run
      exact allocate hkept (fun o ho => objectsAll_iff.mpr hargs o (hconserved ho)) hs
    | application f list =>
      obtain ⟨hf, hlist, -⟩ := by simpa only [List.forall_mem_cons] using hargs
      exact h.applyBody hf hlist hs
    | mapping f list lists =>
      obtain ⟨hf, hlist, hlists⟩ := by simpa only [List.forall_mem_cons] using hargs
      exact h.mapBody hkept hf hlist hlists hs
    | printing v => exact .ok le_rfl hs fun _ ho => by cases ho
  · rw [Primitive.callPrimitive_of_refused hrefused]
    exact .error le_rfl hs

lemma callClosure {id : Identity} {c : Closure} {args : List Value}
    (hc : I.object w (.closure id c)) (hargs : ∀ a ∈ args, I.value w a) (hs : I.holds w s) :
    I.Ends w I.value (SmallLisp.callClosure eval config env c args s) := by
  by_cases hcount : args.length = c.params.length
  · cases hfree : config.reached? s.depth with
    | some limit =>
      rw [Task.callClosure_of_reached hcount hfree]
      exact .error le_rfl hs
    | none =>
      rw [Task.callClosure_apply hcount hfree]
      obtain ⟨v, hgrown, hstate, hbody⟩ := hkept.enter env hs hc hargs hcount
      have henter : I.holds v (config.enter env c args s) := hstate
      exact ((h.eval hbody henter).of_le hgrown).leave
  · rw [Task.callClosure_of_count hcount]
    exact .error le_rfl hs

lemma callValue [Machine] {callee : Value} {args : List Value}
    (hvalues : ∀ a ∈ callee :: args, I.value w a) (hs : I.holds w s) :
    I.Ends w I.value (SmallLisp.callValue eval call config env callee args s) := by
  obtain ⟨hcallee, hargs⟩ := List.forall_mem_cons.mp hvalues
  cases callee with
  | primitive p => exact h.callPrimitive hkept hargs hs
  | closure id c => exact h.callClosure hkept (hcallee _ List.mem_cons_self) hargs hs
  | _ => exact .error le_rfl hs

end Steps

namespace Kept

variable [Machine] {config : Config} {t : Task} (h : I.Kept config)
include h

/-- The inventory is right at the end of every evaluation and of every call. -/
theorem evaluator (n : Nat) : I.Steps (SmallLisp.eval config n) (SmallLisp.call config n) := by
  induction n with
  | zero => exact ⟨fun _ _ => .exhausted, fun _ _ => .exhausted⟩
  | succ n ih => exact ⟨fun hcode hs => ih.evalForm h hcode hs, fun hv hs => ih.callValue h hv hs⟩

/-- The inventory is right at the end of every task. -/
lemma run (n : Nat) (ht : I.task w t) (hs : I.holds w s) : I.Ends w I.value (t.run config n s) := by
  cases t with
  | eval site form => exact (h.evaluator n).eval ht hs
  | sequence site forms => exact (h.evaluator n).evalSequence ht hs
  | call env callee args => exact (h.evaluator n).call ht hs

omit [Machine] h in
/-- A result has the property that it has in the inventory, in a state that is in order. -/
lemma of_ok {post : W → α → Prop} {o : Outcome α} {a : α} {u : State} (ho : I.Ends w post o)
    (hok : o = .ok a u) : ∃ v, w ≤ v ∧ I.holds v u ∧ post v a := by
  subst hok
  cases ho with
  | ok grown state result => exact ⟨_, grown, state, result⟩

/-- When a task ends, be it with an error, the inventory is still right. -/
lemma ends (n : Nat) {u : State} (ht : I.task w t) (hs : I.holds w s)
    (hend : (t.run config n s).state? = some u) : ∃ v, w ≤ v ∧ I.holds v u := by
  have ho := h.run n ht hs
  generalize t.run config n s = o at ho hend
  cases ho with
  | ok grown state =>
    cases hend
    exact ⟨_, grown, state⟩
  | error grown state =>
    cases hend
    exact ⟨_, grown, state⟩
  | exhausted => cases hend

/-- The value of a task has the property. -/
lemma result (n : Nat) {a : Value} {u : State} (ht : I.task w t) (hs : I.holds w s)
    (hend : t.run config n s = .ok a u) : ∃ v, w ≤ v ∧ I.holds v u ∧ I.value v a :=
  of_ok (h.run n ht hs) hend

/-! ## On the way -/

lemma eval_ends {site : Site} {form : Form} {a : Value} {u : State} (hcode : I.code w site form)
    (hs : I.holds w s) (hend : (Task.eval site form).Ends config s (.ok a u)) :
    ∃ v, w ≤ v ∧ I.holds v u ∧ I.value v a := by
  obtain ⟨n, hn⟩ := hend.exists_bound
  exact of_ok ((h.evaluator n).eval hcode hs) hn

lemma each_eval_ends {site : Site} {forms : List Form} {values : List Value} {u : State}
    (hcode : ∀ form ∈ forms, I.code w site form) (hs : I.holds w s)
    (hend : Settles (fun n => each (SmallLisp.eval config n site) forms) s (.ok values u)) :
    ∃ v, w ≤ v ∧ I.holds v u ∧ ∀ a ∈ values, I.value v a := by
  obtain ⟨n, hn⟩ := hend.exists_bound
  exact of_ok ((h.evaluator n).evalAll hcode hs) hn

lemma each_call_ends {env : FrameId} {f : Value} {columns : List (List Value)}
    {values : List Value} {u : State} (hf : I.value w f)
    (hcolumns : ∀ column ∈ columns, ∀ a ∈ column, I.value w a) (hs : I.holds w s)
    (hend : Settles (fun n => each (SmallLisp.call config n env f) columns) s (.ok values u)) :
    ∃ v, w ≤ v ∧ I.holds v u ∧ ∀ a ∈ values, I.value v a := by
  obtain ⟨n, hn⟩ := hend.exists_bound
  exact of_ok ((h.evaluator n).callAll hf hcolumns hs) hn

/-- The inventory is right when a task is begun in the course of another one. -/
theorem starts {t' : Task} {s' : State} (ht : I.task w t) (hs : I.holds w s)
    (hstarts : Starts config t s t' s') : ∃ v, w ≤ v ∧ I.task v t' ∧ I.holds v s' := by
  have hpart {site : Site} {items : List Form} {span : Span} {shape : Shape}
      (hlist : I.code w site (.list items span)) (hshape : Shape.ofList span items = .ok shape)
      {form : Form} (hform : form ∈ shape.evaluated) : I.code w site form :=
    h.part hlist hshape hform
  cases hstarts with
  | condition shape | defined shape | head shape =>
    exact ⟨w, le_rfl, hpart ht shape List.mem_cons_self, hs⟩
  | consequent shape tested | alternative shape tested =>
    obtain ⟨v, hgrown, hu, -⟩ := h.eval_ends (hpart ht shape List.mem_cons_self) hs tested
    exact ⟨v, hgrown, I.code_mono hgrown (hpart ht shape (by simp [Shape.evaluated])), hu⟩
  | sequence shape => exact ⟨w, le_rfl, fun form hform => hpart ht shape hform, hs⟩
  | member done =>
    obtain ⟨v, hgrown, hu, -⟩ :=
      h.each_eval_ends (fun form hform => ht form (List.mem_append_left _ hform)) hs done
    exact ⟨v, hgrown, I.code_mono hgrown (ht _ (by simp)), hu⟩
  | argument shape called proc done =>
    obtain ⟨v, hgrown, hu, -⟩ := h.eval_ends (hpart ht shape List.mem_cons_self) hs called
    have hargs {form : Form} (hform : form ∈ _) : I.code v _ form :=
      I.code_mono hgrown (hpart ht shape (List.mem_cons_of_mem _ hform))
    obtain ⟨v', hgrown', hu', -⟩ :=
      h.each_eval_ends (fun form hform => hargs (List.mem_append_left _ hform)) hu done
    exact ⟨v', hgrown.trans hgrown', I.code_mono hgrown' (hargs (by simp)), hu'⟩
  | callee shape called proc done =>
    obtain ⟨v, hgrown, hu, hcallee⟩ := h.eval_ends (hpart ht shape List.mem_cons_self) hs called
    have hargs {form : Form} (hform : form ∈ _) : I.code v _ form :=
      I.code_mono hgrown (hpart ht shape (List.mem_cons_of_mem _ hform))
    obtain ⟨v', hgrown', hu', hvalues⟩ :=
      h.each_eval_ends (fun form hform => hargs hform) hu done
    exact ⟨v', hgrown.trans hgrown',
      List.forall_mem_cons.mpr ⟨value_mono hgrown' hcallee, hvalues⟩, hu'⟩
  | body count free =>
    obtain ⟨hcallee, hargs⟩ := List.forall_mem_cons.mp ht
    obtain ⟨v, hgrown, hstate, hbody⟩ :=
      h.enter _ hs (hcallee _ List.mem_cons_self) hargs count
    exact ⟨v, hgrown, hbody, hstate⟩
  | applied proc =>
    obtain ⟨-, hf, hlist, -⟩ := by simpa only [task, List.forall_mem_cons] using ht
    exact ⟨w, le_rfl, List.forall_mem_cons.mpr ⟨hf, (value_list_iff.mp hlist).2⟩, hs⟩
  | @mapped env f id first lists others before column after _ values u proc rows columns done =>
    obtain ⟨-, hf, hfirst, hlists⟩ := by simpa only [task, List.forall_mem_cons] using ht
    have hcolumn {column : List Value} (hmem : column ∈ Lists.columns first others) :
        ∀ a ∈ column, I.value w a :=
      value_of_mem_columns (value_list_iff.mp hfirst).2 hlists rows hmem
    rw [columns] at hcolumn
    obtain ⟨v, hgrown, hu, -⟩ :=
      h.each_call_ends hf (fun column hmem => hcolumn (List.mem_append_left _ hmem)) hs done
    have hvalues : ∀ a ∈ f :: column, I.value w a :=
      List.forall_mem_cons.mpr ⟨hf, hcolumn (List.mem_append_right _ List.mem_cons_self)⟩
    exact ⟨v, hgrown, fun a ha => value_mono hgrown (hvalues a ha), hu⟩

/-- The inventory is right whenever a task is begun in the course of another one. -/
theorem reaches {k : Nat} {t' : Task} {s' : State} (ht : I.task w t) (hs : I.holds w s)
    (hreaches : Reaches config t s k t' s') : ∃ v, w ≤ v ∧ I.task v t' ∧ I.holds v s' := by
  induction hreaches with
  | here => exact ⟨w, le_rfl, ht, hs⟩
  | step _ hstarts ih =>
    obtain ⟨v, hgrown, ht, hs⟩ := ih
    obtain ⟨v', hgrown', ht', hs'⟩ := h.starts ht hs hstarts
    exact ⟨v', hgrown.trans hgrown', ht', hs'⟩

/-- The inventory is right in every state that a task passes. -/
theorem passes {u : State} (ht : I.task w t) (hs : I.holds w s)
    (hpasses : t.Passes config s u) : ∃ v, w ≤ v ∧ I.holds v u := by
  cases hpasses with
  | begins reached =>
    obtain ⟨v, hgrown, -, hu⟩ := h.reaches ht hs reached
    exact ⟨v, hgrown, hu⟩
  | ends reached ended =>
    obtain ⟨v, hgrown, ht', hs'⟩ := h.reaches ht hs reached
    obtain ⟨v', hgrown', hu⟩ := h.ends _ ht' hs' ended
    exact ⟨v', hgrown.trans hgrown', hu⟩

end Kept

end Inventory

end SmallLisp
