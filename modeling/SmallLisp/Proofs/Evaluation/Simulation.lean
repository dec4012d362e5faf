import Mathlib
import SmallLisp.Proofs.Evaluation.Task
import SmallLisp.Proofs.Form.Like
import SmallLisp.Proofs.Primitive.Uniform

/-!
# Simulations

Two evaluations that make their frames one by one in the same order can be compared although the
code that they evaluate differs, and with it the values that they bind.  A `Correspondence` says
what stands for what: objects, closures, places, outputs, whole stores, and pieces of code together
with the sites where they are evaluated.  Most of that is relative to a *world*, which records what
has happened so far; a world only ever grows, and what corresponds in it does so in all later ones.

What has to be shown of a correspondence is that it is sound (`Correspondence.Sound`): related code
asks for the same, and does so with related parts, and the frames that are made for a call of
related closures are related again.  Then related evaluations have related outcomes
(`Correspondence.Sound.evaluator`): both are not within the bound, or both fail with the same error,
or both have a value and the values match.
-/

namespace SmallLisp

open EvalM

/-- The errors are the same, except that they may be tied to other places. -/
inductive EvalError.Alike (P : Span → Span → Prop) : EvalError → EvalError → Prop
  | unbound (name : String) {a b : Span} (place : P a b) :
      Alike P (.unbound name a) (.unbound name b)
  | notCallable (kind : Kind) {a b : Span} (place : P a b) :
      Alike P (.notCallable kind a) (.notCallable kind b)
  | malformed (what : Malformation) {a b : Span} (place : P a b) :
      Alike P (.malformed what a) (.malformed what b)
  | placeless {e : EvalError} (h : e.span? = none) : Alike P e e

lemma EvalError.Alike.eq {e e' : EvalError} (h : e.Alike (fun a b => b = a) e') : e' = e := by
  cases h with
  | placeless => rfl
  | unbound name place | notCallable kind place | malformed what place => rw [place]

/-- What in one evaluation stands for what in another one. -/
structure Correspondence (W : Type) [Preorder W] where
  matching : Matching
  span : Span → Span → Prop
  output : Output → Output → Prop
  closure : W → Closure → Closure → Prop
  store : W → Store → Store → Prop
  /-- The code that is evaluated at one site stands for the code at the other one. -/
  code : W → Site → Site → Form → Form → Prop
  closure_mono : ∀ {v w c c'}, v ≤ w → closure v c c' → closure w c c'
  code_mono : ∀ {v w site site' form form'}, v ≤ w → code v site site' form form' →
    code w site site' form form'

namespace Correspondence

section Relations

variable {W : Type} [Preorder W] (R : Correspondence W) (w : W)

/-- The values are the same up to what corresponds. -/
def Values : Value → Value → Prop := Value.Matches R.matching (R.closure w)

structure States (s s' : State) : Prop where
  objects : s'.objects = s.objects
  depth : s'.depth = s.depth
  output : R.output s.output s'.output
  store : R.store w s.store s'.store

/-- The outcomes correspond in a world that has grown from `w`.  Of results, `post` holds there. -/
inductive Outcomes {α β : Type} (post : W → α → β → Prop) : Outcome α → Outcome β → Prop
  | ok {v : W} {a : α} {b : β} {t t' : State} (grown : w ≤ v) (states : R.States v t t')
      (results : post v a b) : Outcomes post (.ok a t) (.ok b t')
  | error {v : W} {e e' : EvalError} {t t' : State} (grown : w ≤ v) (states : R.States v t t')
      (errors : e.Alike R.span e') : Outcomes post (.error e t) (.error e' t')
  | exhausted : Outcomes post .exhausted .exhausted

/-- The shapes ask for the same, with corresponding parts. -/
inductive Shapes (site site' : Site) : Shape → Shape → Prop
  | lambda {params params' : List String} {body body' : Form}
      (closure : R.closure w ⟨params, body, site.source, site.env⟩
        ⟨params', body', site'.source, site'.env⟩) :
      Shapes site site' (.lambda params body) (.lambda params' body')
  | conditional {test test' left left' : Form} {right right' : Option Form}
      (condition : R.code w site site' test test') (consequent : R.code w site site' left left')
      (alternative : Option.Rel (R.code w site site') right right') :
      Shapes site site' (.conditional test left right) (.conditional test' left' right')
  | define {name name' : String} {form form' : Form} (value : R.code w site site' form form')
      (binds : ∀ {v : W} {t t' : Store} {a a' : Value}, w ≤ v → R.store v t t' → R.Values v a a' →
        R.store v (t.define site.env name a) (t'.define site'.env name' a')) :
      Shapes site site' (.define name form) (.define name' form')
  | sequence {forms forms' : List Form}
      (members : List.Forall₂ (R.code w site site') forms forms') :
      Shapes site site' (.sequence forms) (.sequence forms')
  | call {f f' : Form} {args args' : List Form} (head : R.code w site site' f f')
      (place : R.span f.span f'.span)
      (arguments : List.Forall₂ (R.code w site site') args args') :
      Shapes site site' (.call f args) (.call f' args')

/-- The forms ask for the same at their sites. -/
inductive Forms (site site' : Site) (s s' : Store) : Form → Form → Prop
  | int (n : Int64) {a b : Span} : Forms site site' s s' (.int n a) (.int n b)
  | float (x : Double) {a b : Span} : Forms site site' s s' (.float x a) (.float x b)
  | str {text : String} {a b : Span} (h : R.matching.text text)
      (id : R.matching.identity (.literal site.source a) (.literal site'.source b)) :
      Forms site site' s s' (.str text a) (.str text b)
  | symbol {name name' : String} {a b : Span}
      (found : Option.Rel (R.Values w) (s.lookup site.env name) (s'.lookup site'.env name'))
      (missing : s.lookup site.env name = none → name' = name ∧ R.span a b) :
      Forms site site' s s' (.symbol name a) (.symbol name' b)
  | list {items items' : List Form} {a b : Span}
      (shapes : Shape.Agree R.span (R.Shapes w site site') (Shape.ofList a items)
        (Shape.ofList b items')) : Forms site site' s s' (.list items a) (.list items' b)

variable {R w} in
/-- Shapes that ask for the same correspond if their parts do, the closures that they make, and the
names that they define.  The body of a `lambda` form is no code of the site. -/
lemma Shapes.of_like {ρ : String → String} {F : Form → Form → Prop} {site site' : Site}
    {shape shape' : Shape} (hshape : shape.Like ρ F shape')
    (hplace : ∀ {form form'}, F form form' → R.span form.span form'.span)
    (hcode : (∀ params body, shape ≠ .lambda params body) → ∀ {form form'}, F form form' →
      R.code w site site' form form')
    (hlambda : ∀ {params body body'}, shape = .lambda params body → F body body' →
      R.closure w ⟨params, body, site.source, site.env⟩
        ⟨params.map ρ, body', site'.source, site'.env⟩)
    (hdefine : ∀ {name form}, shape = .define name form → ∀ {v t t' a a'}, w ≤ v →
      R.store v t t' → R.Values v a a' →
        R.store v (t.define site.env name a) (t'.define site'.env (ρ name) a')) :
    R.Shapes w site site' shape shape' := by
  cases hshape with
  | lambda params h => exact .lambda (hlambda rfl h)
  | conditional condition consequent alternative =>
    refine .conditional (hcode nofun condition) (hcode nofun consequent) ?_
    cases alternative with
    | none => exact .none
    | some h => exact .some (hcode nofun h)
  | define name value => exact .define (hcode nofun value) (hdefine rfl)
  | sequence members => exact .sequence (members.imp fun _ _ h => hcode nofun h)
  | call head arguments =>
    exact .call (hcode nofun head) (hplace head) (arguments.imp fun _ _ h => hcode nofun h)

variable {R w} in
/-- A shape corresponds to itself if its parts do, the closures that it makes, and what it
defines. -/
lemma Shapes.self {site : Site} {shape : Shape} (hspan : ∀ a, R.span a a)
    (hcode : ∀ form ∈ shape.evaluated, R.code w site site form form)
    (hlambda : ∀ params body, shape = .lambda params body →
      R.closure w ⟨params, body, site.source, site.env⟩ ⟨params, body, site.source, site.env⟩)
    (hdefine : ∀ name form, shape = .define name form → ∀ {v t t' a a'}, w ≤ v →
      R.store v t t' → R.Values v a a' →
        R.store v (t.define site.env name a) (t'.define site.env name a')) :
    R.Shapes w site site shape shape := by
  have hcodes (forms : List Form) (h : forms ⊆ shape.evaluated) :
      List.Forall₂ (R.code w site site) forms forms :=
    List.forall₂_same.mpr fun form hform => hcode form (h hform)
  cases shape with
  | lambda params body => exact .lambda (hlambda params body rfl)
  | conditional condition consequent alternative =>
    refine .conditional (hcode _ List.mem_cons_self) (hcode _ (by simp [Shape.evaluated])) ?_
    cases alternative with
    | none => exact .none
    | some form => exact .some (hcode form (by simp [Shape.evaluated]))
  | define name form => exact .define (hcode form List.mem_cons_self) (hdefine name form rfl)
  | sequence forms => exact .sequence (hcodes forms (List.Subset.refl forms))
  | call head args =>
    exact .call (hcode head List.mem_cons_self) (hspan _)
      (hcodes args (List.subset_cons_self head args))

variable {R w} in
/-- Code corresponds to itself if what it asks for does. -/
lemma Forms.self {site : Site} {s s' : Store} {form : Form} (hspan : ∀ a, R.span a a)
    (hliteral : ∀ text a, R.matching.text text ∧
      R.matching.identity (.literal site.source a) (.literal site.source a))
    (hlookup : ∀ name, Option.Rel (R.Values w) (s.lookup site.env name)
      (s'.lookup site.env name))
    (hshape : ∀ items span shape, form = .list items span → Shape.ofList span items = .ok shape →
      R.Shapes w site site shape shape) : R.Forms w site site s s' form form := by
  cases form with
  | int n => exact .int n
  | float x => exact .float x
  | str text span => exact .str (hliteral text span).1 (hliteral text span).2
  | symbol name span => exact .symbol (hlookup name) fun _ => ⟨rfl, hspan span⟩
  | list items span =>
    refine .list ?_
    cases hshaped : Shape.ofList span items with
    | error e => exact .error e.1 (hspan e.2)
    | ok shape => exact .ok (hshape items span shape rfl hshaped)

end Relations

/-- Under these settings, what corresponds leads to what corresponds. -/
structure Sound {W : Type} [Preorder W] (R : Correspondence W) (config config' : Config) :
    Prop where
  limit : config'.maxDepth = config.maxDepth
  /-- Things that have no place correspond. -/
  nowhere : R.span .nowhere .nowhere
  env : ∀ {w site site' form form'}, R.code w site site' form form' → site'.env = site.env
  next : ∀ {w s s'}, R.store w s s' → s'.next = s.next
  print : ∀ {w o o' v v'}, R.output o o' → R.Values w v v' →
    R.output (o.writeLine v.text) (o'.writeLine v'.text)
  form : ∀ {w s s' site site' form form'}, R.store w s s' → R.code w site site' form form' →
    R.Forms w site site' s s' form form'
  params : ∀ {w c c'}, R.closure w c c' → c'.params.length = c.params.length
  /-- The frames for a call are related, and so are the bodies that are evaluated there. -/
  enter : ∀ {w s s' c c' args args'} (env : FrameId), R.store w s s' → R.closure w c c' →
    List.Forall₂ (R.Values w) args args' → args.length = c.params.length →
      ∃ v, w ≤ v ∧ R.store v (s.push (config.callFrame s env c args))
          (s'.push (config'.callFrame s' env c' args')) ∧
        R.code v ⟨c.source, s.next⟩ ⟨c'.source, s.next⟩ c.body c'.body

/-! ## What is composed of corresponding parts -/

variable {W : Type} [Preorder W] {R : Correspondence W} {v w : W} {s s' : State} {α β γ δ : Type}

lemma Values.mono {a b : Value} (hle : w ≤ v) (h : R.Values w a b) : R.Values v a b :=
  Value.Matches.mono (fun _ _ h => h) (fun _ h => h) (fun _ _ => R.closure_mono hle) h

lemma values_mono {as bs : List Value} (hle : w ≤ v) (h : List.Forall₂ (R.Values w) as bs) :
    List.Forall₂ (R.Values v) as bs :=
  h.imp fun _ _ => Values.mono hle

lemma codes_mono {site site' : Site} {forms forms' : List Form} (hle : w ≤ v)
    (h : List.Forall₂ (R.code w site site') forms forms') :
    List.Forall₂ (R.code v site site') forms forms' :=
  h.imp fun _ _ => R.code_mono hle

namespace Outcomes

lemma of_le {post : W → α → β → Prop} {o : Outcome α} {o' : Outcome β} (hle : w ≤ v)
    (h : R.Outcomes v post o o') : R.Outcomes w post o o' := by
  cases h with
  | ok grown states results => exact .ok (hle.trans grown) states results
  | error grown states errors => exact .error (hle.trans grown) states errors
  | exhausted => exact .exhausted

lemma bind {post : W → α → β → Prop} {post' : W → γ → δ → Prop} {m : EvalM α} {m' : EvalM β}
    {f : α → EvalM γ} {f' : β → EvalM δ} (hm : R.Outcomes w post (m s) (m' s'))
    (hf : ∀ {v a b t t'}, w ≤ v → R.States v t t' → post v a b →
      R.Outcomes v post' (f a t) (f' b t')) :
    R.Outcomes w post' ((m >>= f) s) ((m' >>= f') s') := by
  change R.Outcomes w post' (EvalM.bind m f s) (EvalM.bind m' f' s')
  unfold EvalM.bind
  generalize m s = o, m' s' = o' at hm
  cases hm with
  | ok grown states results => exact (hf grown states results).of_le grown
  | error grown states errors => exact .error grown states errors
  | exhausted => exact .exhausted

/-- The members of two lists are evaluated in turn, while the world grows from `w`. -/
lemma each {A : α → β → Prop} {f : α → EvalM Value} {f' : β → EvalM Value} {as : List α}
    {bs : List β} (hf : ∀ {v a b t t'}, w ≤ v → A a b → R.States v t t' →
      R.Outcomes v R.Values (f a t) (f' b t')) (hmembers : List.Forall₂ A as bs)
    (hle : w ≤ v) (hs : R.States v s s') :
    R.Outcomes v (fun u => List.Forall₂ (R.Values u)) (EvalM.each f as s)
      (EvalM.each f' bs s') := by
  induction hmembers generalizing v s s' with
  | nil => exact .ok le_rfl hs .nil
  | cons hmember _ ih =>
    refine (hf hle hmember hs).bind fun {v₁ a b t t'} hgrown ht hvalue => ?_
    refine (ih (hle.trans hgrown) ht).bind fun hgrown hu hvalues => ?_
    exact .ok le_rfl hu (.cons (hvalue.mono hgrown) hvalues)

lemma sequence {A : α → β → Prop} {f : α → EvalM Value} {f' : β → EvalM Value} {as : List α}
    {bs : List β} {last last' : Value} (hf : ∀ {v a b t t'}, w ≤ v → A a b → R.States v t t' →
      R.Outcomes v R.Values (f a t) (f' b t')) (hmembers : List.Forall₂ A as bs)
    (hle : w ≤ v) (hs : R.States v s s') (hlast : R.Values v last last') :
    R.Outcomes v R.Values (EvalM.sequence f last as s) (EvalM.sequence f' last' bs s') := by
  induction hmembers generalizing v s s' last last' with
  | nil => exact .ok le_rfl hs hlast
  | cons hmember _ ih =>
    exact (hf hle hmember hs).bind fun hgrown ht hvalue => ih (hle.trans hgrown) ht hvalue

/-- After checks that agree, the states are as before. -/
lemma orFault_bind {p : Primitive} {Q : α → β → Prop} {x : Except Fault α} {y : Except Fault β}
    {post : W → γ → δ → Prop} {f : α → EvalM γ} {f' : β → EvalM δ} (h : Fault.Agree Q x y)
    (hs : R.States w s s') (hf : ∀ {a b}, Q a b → R.Outcomes w post (f a s) (f' b s')) :
    R.Outcomes w post ((orFault p x >>= f) s) ((orFault p y >>= f') s') := by
  cases h with
  | ok h => exact hf h
  | error fault => exact .error le_rfl hs (.placeless rfl)

/-- Objects that are made at the same time match if their contents do. -/
lemma make (object object' : Identity → Value) (hs : R.States w s s')
    (hvalues : R.Values w (object s.fresh.1) (object' s.fresh.1)) :
    R.Outcomes w R.Values (EvalM.update (fun s => (object s.fresh.1, s.fresh.2)) s)
      (EvalM.update (fun s => (object' s.fresh.1, s.fresh.2)) s') := by
  simp only [EvalM.update, State.fresh, hs.objects] at hvalues ⊢
  exact .ok le_rfl ⟨rfl, hs.depth, hs.output, hs.store⟩ hvalues

lemma allocate {answer answer' : Answer} (hs : R.States w s s')
    (h : answer.Matches R.matching (R.closure w) answer') :
    R.Outcomes w R.Values (EvalM.update (·.allocate answer) s)
      (EvalM.update (·.allocate answer') s') := by
  cases h with
  | value h => exact .ok le_rfl hs h
  | @string text h =>
    exact make (.str · text) (.str · text) hs (.str (R.matching.fresh _) h)
  | @list vs ws h =>
    exact make (.list · vs) (.list · ws) hs (.list (R.matching.fresh _) h)

/-- Leaving a call is the same for outcomes that correspond. -/
lemma leave {post : W → α → β → Prop} {o : Outcome α} {o' : Outcome β}
    (h : R.Outcomes w post o o') : R.Outcomes w post o.leave o'.leave := by
  have hleave {v : W} {t t' : State} (ht : R.States v t t') :
      R.States v { t with depth := t.depth - 1 } { t' with depth := t'.depth - 1 } :=
    ⟨ht.objects, congrArg (· - 1) ht.depth, ht.output, ht.store⟩
  cases h with
  | ok grown states results => exact .ok grown (hleave states) results
  | error grown states errors => exact .error grown (hleave states) errors
  | exhausted => exact .exhausted

end Outcomes

/-! ## One step -/

/-- Related code is evaluated alike, and calls of matching procedures are alike. -/
structure Steps {W : Type} [Preorder W] (R : Correspondence W)
    (eval eval' : Site → Form → EvalM Value)
    (call call' : FrameId → Value → List Value → EvalM Value) : Prop where
  eval : ∀ {w site site' form form' s s'}, R.code w site site' form form' → R.States w s s' →
    R.Outcomes w R.Values (eval site form s) (eval' site' form' s')
  call : ∀ {w env callee callee' args args' s s'}, R.Values w callee callee' →
    List.Forall₂ (R.Values w) args args' → R.States w s s' →
    R.Outcomes w R.Values (call env callee args s) (call' env callee' args' s')

namespace Steps

variable {config config' : Config} {eval eval' : Site → Form → EvalM Value}
variable {call call' : FrameId → Value → List Value → EvalM Value}
variable {site site' : Site} {env : FrameId}
variable (h : R.Steps eval eval' call call')
include h

lemma evalAll {forms forms' : List Form} (hforms : List.Forall₂ (R.code w site site') forms forms')
    (hs : R.States w s s') :
    R.Outcomes w (fun v => List.Forall₂ (R.Values v)) (EvalM.each (eval site) forms s)
      (EvalM.each (eval' site') forms' s') :=
  Outcomes.each (fun hle hform ht => h.eval (R.code_mono hle hform) ht) hforms le_rfl hs

lemma evalSequence {forms forms' : List Form} {last last' : Value}
    (hforms : List.Forall₂ (R.code w site site') forms forms') (hs : R.States w s s')
    (hlast : R.Values w last last') :
    R.Outcomes w R.Values (EvalM.sequence (eval site) last forms s)
      (EvalM.sequence (eval' site') last' forms' s') :=
  Outcomes.sequence (fun hle hform ht => h.eval (R.code_mono hle hform) ht) hforms le_rfl hs hlast

lemma evalShape (henv : site'.env = site.env) {shape shape' : Shape}
    (hshape : R.Shapes w site site' shape shape') (hs : R.States w s s') :
    R.Outcomes w R.Values (SmallLisp.evalShape eval call site shape s)
      (SmallLisp.evalShape eval' call' site' shape' s') := by
  cases hshape with
  | @lambda params params' body body' closure =>
    exact Outcomes.make (.closure · ⟨params, body, site.source, site.env⟩)
      (.closure · ⟨params', body', site'.source, site'.env⟩) hs
      (.closure (R.matching.fresh _) closure)
  | conditional condition consequent alternative =>
    refine (h.eval condition hs).bind fun {v a b t t'} hgrown ht htest => ?_
    rw [Value.Matches.indiscernible.isTruthy_eq htest]
    split
    · exact h.eval (R.code_mono hgrown consequent) ht
    · cases alternative with
      | none => exact .ok le_rfl ht .nil
      | some form => exact h.eval (R.code_mono hgrown form) ht
  | define value binds =>
    refine (h.eval value hs).bind fun hgrown ht hvalue => ?_
    exact .ok le_rfl ⟨ht.objects, ht.depth, ht.output, binds hgrown ht.store hvalue⟩ .nil
  | sequence forms => exact h.evalSequence forms hs .nil
  | call head place args =>
    refine (h.eval head hs).bind fun {v callee callee' t t'} hgrown ht hcallee => ?_
    rw [Value.Matches.indiscernible.isProcedure_eq hcallee,
      Value.Matches.indiscernible.kind_eq hcallee]
    split
    · refine (h.evalAll (codes_mono hgrown args) ht).bind fun hgrown hu hargs => ?_
      rw [henv]
      exact h.call (hcallee.mono hgrown) hargs hu
    · exact .error le_rfl ht (.notCallable _ place)

lemma evalForm (hsound : R.Sound config config') {form form' : Form}
    (hform : R.code w site site' form form') (hs : R.States w s s') :
    R.Outcomes w R.Values (SmallLisp.evalForm eval call site form s)
      (SmallLisp.evalForm eval' call' site' form' s') := by
  have henv := hsound.env hform
  cases hsound.form hs.store hform with
  | int n => exact .ok le_rfl hs (.int n)
  | float x => exact .ok le_rfl hs (.float x)
  | str text id => exact .ok le_rfl hs (.str id text)
  | @symbol name name' a b found missing =>
    simp only [SmallLisp.evalForm, resolve]
    generalize s.store.lookup site.env name = value,
      s'.store.lookup site'.env name' = value' at found missing
    cases found with
    | some values => exact .ok le_rfl hs values
    | none =>
      obtain ⟨rfl, place⟩ := missing rfl
      exact .error le_rfl hs (.unbound _ place)
  | @list items items' a b shapes =>
    simp only [SmallLisp.evalForm]
    generalize Shape.ofList a items = shape, Shape.ofList b items' = shape' at shapes
    cases shapes with
    | ok hshape => exact h.evalShape henv hshape hs
    | error what place => exact .error le_rfl hs (.malformed what place)

/-! ### Calls -/

/-- A procedure is called with one row of arguments after the other. -/
lemma callAll {f f' : Value} {rows rows' : List (List Value)} (hf : R.Values w f f')
    (hrows : List.Forall₂ (List.Forall₂ (R.Values w)) rows rows') (hs : R.States w s s') :
    R.Outcomes w (fun v => List.Forall₂ (R.Values v)) (EvalM.each (call env f) rows s)
      (EvalM.each (call' env f') rows' s') :=
  Outcomes.each (fun hle hrow ht => h.call (hf.mono hle) (values_mono hle hrow) ht) hrows le_rfl hs

lemma applyBody {f f' list list' : Value} (hf : R.Values w f f') (hlist : R.Values w list list')
    (hs : R.States w s s') :
    R.Outcomes w R.Values (SmallLisp.applyBody call env f list s)
      (SmallLisp.applyBody call' env f' list' s') := by
  unfold SmallLisp.applyBody
  rw [Value.Matches.indiscernible.isProcedure_eq hf, Value.Matches.indiscernible.kind_eq hf]
  split
  · have hitems := Lists.agree_second Value.Matches.indiscernible hlist
    exact Outcomes.orFault_bind hitems hs fun hitems => h.call hf hitems hs
  · exact .error le_rfl hs (.placeless rfl)

lemma mapBody {f f' list list' : Value} {lists lists' : List Value} (hf : R.Values w f f')
    (hlist : R.Values w list list') (hlists : List.Forall₂ (R.Values w) lists lists')
    (hs : R.States w s s') :
    R.Outcomes w R.Values (SmallLisp.mapBody call env f list lists s)
      (SmallLisp.mapBody call' env f' list' lists' s') := by
  simp only [SmallLisp.mapBody, each_orFault]
  rw [Value.Matches.indiscernible.isProcedure_eq hf, Value.Matches.indiscernible.kind_eq hf]
  split
  · have hitems := Lists.agree_argument Value.Matches.indiscernible hlist
    have hrows := Lists.agree_mapM_argument Value.Matches.indiscernible hlists
    refine Outcomes.orFault_bind hitems hs fun hfirst => ?_
    refine Outcomes.orFault_bind hrows hs fun hothers => ?_
    have hcolumns := Lists.forall₂_columns hfirst hothers
    refine (h.callAll hf hcolumns hs).bind fun _ ht hresults => ?_
    exact Outcomes.allocate ht (Answer.Matches.list hresults)
  · exact .error le_rfl hs (.placeless rfl)

lemma callPrimitive [Machine] (hsound : R.Sound config config') {p : Primitive}
    {args args' : List Value}
    (hargs : List.Forall₂ (R.Values w) args args') (hs : R.States w s s') :
    R.Outcomes w R.Values (SmallLisp.callPrimitive call env p args s)
      (SmallLisp.callPrimitive call' env p args' s') := by
  rcases Primitive.called_or_refused call env p args with ⟨m, hm, hcalled⟩ | hrefused
  · cases hcalled with
    | @operation p body args result meaning run =>
      have hresults := Primitive.uniform_of_operation meaning args args' hargs
      rw [run] at hresults
      cases hrun' : body.run? args' with
      | none =>
        rw [hrun'] at hresults
        cases hresults
      | some result' =>
        rw [hrun'] at hresults
        rw [Primitive.callPrimitive_of_operation meaning run,
          Primitive.callPrimitive_of_operation meaning hrun']
        cases hresults with
        | some hresults =>
          exact Outcomes.orFault_bind hresults hs fun hanswer => Outcomes.allocate hs hanswer
    | application f list =>
      obtain _ | ⟨hf, _ | ⟨hlist, ⟨⟩⟩⟩ := hargs
      exact h.applyBody hf hlist hs
    | mapping f list lists =>
      obtain _ | ⟨hf, _ | ⟨hlist, hlists⟩⟩ := hargs
      exact h.mapBody hf hlist hlists hs
    | printing v =>
      obtain _ | ⟨hv, ⟨⟩⟩ := hargs
      exact .ok le_rfl ⟨hs.objects, hs.depth, hsound.print hs.output hv, hs.store⟩ .nil
  · rw [Primitive.callPrimitive_of_refused hrefused,
      Primitive.callPrimitive_of_refused (hargs.length_eq ▸ hrefused), hargs.length_eq]
    exact .error le_rfl hs (.placeless rfl)

lemma callClosure (hsound : R.Sound config config') {c c' : Closure} {args args' : List Value}
    (hc : R.closure w c c') (hargs : List.Forall₂ (R.Values w) args args')
    (hs : R.States w s s') :
    R.Outcomes w R.Values (SmallLisp.callClosure eval config env c args s)
      (SmallLisp.callClosure eval' config' env c' args' s') := by
  have hreached : config'.reached? s'.depth = config.reached? s.depth := by
    rw [Config.reached?, Config.reached?, hs.depth, hsound.limit]
  have hparams := hsound.params hc
  by_cases hcount : args.length = c.params.length
  · have hcount' : args'.length = c'.params.length := by
      rw [← hargs.length_eq, hparams, hcount]
    cases hfree : config.reached? s.depth with
    | some limit =>
      rw [Task.callClosure_of_reached hcount hfree,
        Task.callClosure_of_reached hcount' (hreached.trans hfree)]
      exact .error le_rfl hs (.placeless rfl)
    | none =>
      rw [Task.callClosure_apply hcount hfree,
        Task.callClosure_apply hcount' (hreached.trans hfree), hsound.next hs.store]
      obtain ⟨v, hgrown, hstore, hbody⟩ := hsound.enter env hs.store hc hargs hcount
      have henter : R.States v (config.enter env c args s) (config'.enter env c' args' s') :=
        ⟨hs.objects, congrArg (· + 1) hs.depth, hs.output, hstore⟩
      exact ((h.eval hbody henter).of_le hgrown).leave
  · have hcount' : args'.length ≠ c'.params.length := by
      rwa [← hargs.length_eq, hparams]
    rw [Task.callClosure_of_count hcount, Task.callClosure_of_count hcount', hparams,
      hargs.length_eq]
    exact .error le_rfl hs (.placeless rfl)

lemma callValue [Machine] (hsound : R.Sound config config') {callee callee' : Value}
    {args args' : List Value} (hcallee : R.Values w callee callee')
    (hargs : List.Forall₂ (R.Values w) args args') (hs : R.States w s s') :
    R.Outcomes w R.Values (SmallLisp.callValue eval call config env callee args s)
      (SmallLisp.callValue eval' call' config' env callee' args' s') := by
  cases hcallee with
  | primitive p => exact h.callPrimitive hsound hargs hs
  | closure _ hc => exact h.callClosure hsound hc hargs hs
  | _ => exact .error le_rfl hs (.notCallable _ hsound.nowhere)

end Steps

/-! ## Whole evaluations -/

/-- Under a sound correspondence related code is evaluated alike, and calls are alike. -/
theorem Sound.evaluator [Machine] {config config' : Config} (hsound : R.Sound config config')
    (n : Nat) :
    R.Steps (SmallLisp.eval config n) (SmallLisp.eval config' n) (SmallLisp.call config n)
      (SmallLisp.call config' n) := by
  induction n with
  | zero => exact ⟨fun _ _ => .exhausted, fun _ _ _ => .exhausted⟩
  | succ n ih => exact ⟨ih.evalForm hsound, ih.callValue hsound⟩

end Correspondence

end SmallLisp
