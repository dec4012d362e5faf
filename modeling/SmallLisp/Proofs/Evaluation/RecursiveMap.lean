import SmallLisp.Proofs.Evaluation.Extent
import SmallLisp.Proofs.Form.Leaves

/-!
# `map` as a program

The procedure `map` can be written in the language, by recursion along the list:

    (define m (lambda (f l) (if (null? l) (list) (cons (f (car l)) (m f (cdr l))))))

Here a call of such a procedure is evaluated symbolically.  If the list is empty, the call makes an
empty list (`Store.InMap.ends_nil`).  If not, it calls `f` with the first element, makes a list of
the other ones, calls itself with that, and makes a list of both results (`Store.InMap.ends_cons`).
All names in the body mean the same throughout, because whatever `f` does, it leaves the frames
alone that were there before.
-/

namespace SmallLisp

open EvalM

/-! ## The program -/

namespace Form

/-- The form `(if (null? l) (list) (cons (f (car l)) (m f (cdr l))))`, without places. -/
def mapping : Form :=
  let name (x : String) : Form := .symbol x .nowhere
  let list (items : List Form) : Form := .list items .nowhere
  list [name "if", list [name "null?", name "l"], list [name "list"],
    list [name "cons", list [name "f", list [name "car", name "l"]],
      list [name "m", name "f", list [name "cdr", name "l"]]]]

/-- The form `(define m (lambda (f l) …))` with the body `Form.mapping`, without places. -/
def mappingDefinition : Form :=
  let name (x : String) : Form := .symbol x .nowhere
  let list (items : List Form) : Form := .list items .nowhere
  list [name "define", name "m", list [name "lambda", list [name "f", name "l"], mapping]]

end Form

/-- The primitive procedures that the program calls. -/
def mappingPrimitives : List Primitive := [.isNull, .list, .cons, .car, .cdr]

/-- Seen from the frame `g`, the names of the primitive procedures are bound to these, and `m` to a
closure that was made in `g` from the form `(lambda (f l) …)`, wherever that was written. -/
structure Store.DefinesMap (s : Store) (g : FrameId) (id : Identity) (c : Closure) : Prop where
  primitives : ∀ p ∈ mappingPrimitives, s.lookup g p.name = some (.primitive p)
  itself : s.lookup g "m" = some (.closure id c)
  params : c.params = ["f", "l"]
  body : c.body.bare = Form.mapping
  env : c.env = g

/-- What is seen in a call of the procedure `m` with `f` and a list. -/
structure Store.InMap (s : Store) (env : FrameId) (m f list : Value) : Prop where
  exists_frame : env < s.next
  primitives : ∀ p ∈ mappingPrimitives, s.lookup env p.name = some (.primitive p)
  itself : s.lookup env "m" = some m
  procedure : s.lookup env "f" = some f
  list : s.lookup env "l" = some list

/-- What one call of `m` does for a list whose first element is `x` and whose other ones are `xs`.
-/
def mappingRound (call : Value → List Value → EvalM Value) (m f x : Value) (xs : List Value) :
    EvalM Value := do
  let y ← call f [x]
  let ys ← EvalM.update (·.newList xs) >>= fun rest => call m [f, rest]
  call (.primitive .cons) [y, ys]

variable {config : Config} {s t : State} {o : Outcome Value} {site : Site} {m f x : Value}
variable {xs : List Value} {id lid : Identity} {c : Closure}

namespace Store

lemma InMap.unchanged {s t : Store} {env : FrameId} {list : Value} (h : s.InMap env m f list)
    (hunchanged : s.Unchanged t) : t.InMap env m f list := by
  have hlookup := hunchanged.lookup_eq h.exists_frame
  refine ⟨h.exists_frame.trans_le hunchanged.grows, ?_, ?_, ?_, ?_⟩
  · simpa only [hlookup] using h.primitives
  · rw [hlookup, h.itself]
  · rw [hlookup, h.procedure]
  · rw [hlookup, h.list]

namespace DefinesMap

variable {s t : Store} {g : FrameId}

lemma exists_frame (h : s.DefinesMap g id c) : g < s.next := by
  by_contra hge
  have hnone : s.lookup g "m" = none :=
    lookup_of_none (Array.getElem?_eq_none (Nat.le_of_not_lt hge))
  cases h.itself.symm.trans hnone

lemma unchanged (h : s.DefinesMap g id c) (hunchanged : s.Unchanged t) : t.DefinesMap g id c := by
  have hlookup := hunchanged.lookup_eq h.exists_frame
  refine ⟨?_, ?_, h.params, h.body, h.env⟩
  · simpa only [hlookup] using h.primitives
  · rw [hlookup, h.itself]

/-- The frame for a call binds `f` and `l`, and leaves the other names as they are. -/
lemma inMap (h : s.DefinesMap g id c) (f list : Value) :
    (s.push (Frame.inside c.env (c.params.zip [f, list]))).InMap s.next (.closure id c) f list := by
  have hlookup (x : String) :
      (s.push (Frame.inside c.env (c.params.zip [f, list]))).lookup s.next x =
        (findBinding? x [("l", list), ("f", f)]).or (s.lookup g x) := by
    rw [h.env, lookup_inside h.exists_frame, h.params]
    rfl
  refine ⟨by simp, fun p hp => ?_, ?_, by rw [hlookup]; rfl, by rw [hlookup]; rfl⟩
  · have hown : findBinding? p.name [("l", list), ("f", f)] = none := by
      simp only [mappingPrimitives, List.mem_cons, List.not_mem_nil, or_false] at hp
      obtain rfl | rfl | rfl | rfl | rfl := hp <;> rfl
    rw [hlookup, hown, Option.none_or, h.primitives p hp]
  · rw [hlookup]
    exact h.itself

end DefinesMap

end Store

/-! ## Evaluating the body -/

variable [Machine]

namespace Task

/-- A call leaves the frames alone that were there before. -/
lemma Ends.unchanged {env : FrameId} {callee : Value} {args : List Value}
    (h : (call env callee args).Ends config s o) (ht : o.state? = some t) :
    s.store.Unchanged t.store := by
  obtain ⟨n, hn⟩ := h.exists_bound
  refine (isolated_evaluator config n).call_keeps env callee args s t ?_
  change (run config n (call env callee args) s).state? = some t
  rw [hn, ht]

/-- A symbol evaluates to what it is bound to. -/
lemma ends_symbol {form : Form} {name : String} {v : Value}
    (hform : form.bare = .symbol name .nowhere) (named : s.store.lookup site.env name = some v) :
    (eval site form).Ends config s (.ok v s) := by
  obtain ⟨span, rfl⟩ := Form.exists_symbol_of_bare hform
  exact ends_eval_iff.mpr (.of_forall fun _ => resolve_of_some named)

/-- The call of a procedure by its name, wherever it was written. -/
lemma exists_named_call_iff {form : Form} {name : String} {args : List Form} {callee : Value}
    (hform : form.bare = .list (.symbol name .nowhere :: args) .nowhere)
    (plain : SpecialForm.ofName? name = none)
    (named : s.store.lookup site.env name = some callee) (proc : callee.isProcedure) :
    ∃ args', args'.map Form.bare = args ∧ ∀ o, (eval site form).Ends config s o ↔
      Settles (fun n => each (SmallLisp.eval config n site) args' >>= fun values =>
        SmallLisp.call config n site.env callee values) s o := by
  obtain ⟨place, args', span, rfl, hargs⟩ := Form.exists_headed_of_bare hform
  exact ⟨args', hargs, fun _ => ends_named_call_iff plain named proc⟩

lemma settles_symbols {forms : List Form} {names : List String} {values : List Value}
    (hforms : forms.map Form.bare = names.map (.symbol · .nowhere))
    (hvalues : List.Forall₂ (fun x v => s.store.lookup site.env x = some v) names values) :
    Settles (fun n => each (SmallLisp.eval config n site) forms) s (.ok values s) := by
  induction hvalues generalizing forms with
  | nil =>
    obtain rfl := List.map_eq_nil_iff.mp hforms
    exact .each_nil _ s
  | cons hv _ ih =>
    obtain ⟨form, forms, rfl, hform, hrest⟩ := List.map_eq_cons_iff.mp hforms
    exact Settles.each_cons (f := fun n => SmallLisp.eval config n site) (ends_symbol hform hv)
      (ih hrest)

/-- A primitive procedure that only looks at its arguments is called. -/
lemma ends_operation_call {env : FrameId} {p : Primitive} {args : List Value}
    {body : Body (Except Fault Answer)} {answer : Answer} (meaning : p.meaning = .operation body)
    (run : body.run? args = some (.ok answer)) :
    (call env (.primitive p) args).Ends config s
      (.ok (s.allocate answer).1 (s.allocate answer).2) := by
  refine ends_call_iff.mpr (.of_forall fun n => ?_)
  exact congrFun (Primitive.callPrimitive_of_operation meaning run) s

/-- It is applied to variables. -/
lemma ends_operation {form : Form} {p : Primitive} {names : List String} {values : List Value}
    {body : Body (Except Fault Answer)} {answer : Answer}
    (hform : form.bare = .list ((p.name :: names).map (.symbol · .nowhere)) .nowhere)
    (plain : SpecialForm.ofName? p.name = none)
    (named : s.store.lookup site.env p.name = some (.primitive p))
    (hvalues : List.Forall₂ (fun x v => s.store.lookup site.env x = some v) names values)
    (meaning : p.meaning = .operation body) (run : body.run? values = some (.ok answer)) :
    (eval site form).Ends config s (.ok (s.allocate answer).1 (s.allocate answer).2) := by
  obtain ⟨args, hargs, hends⟩ :=
    @exists_named_call_iff config s site _ form _ _ _ hform plain named rfl
  exact (hends _).mpr ((settles_symbols hargs hvalues).bind (ends_operation_call meaning run))

/-- A conditional evaluates to one of its branches, which one is decided by its condition. -/
lemma exists_conditional_iff {form condition consequent alternative : Form}
    (hform : form.bare =
      .list [.symbol "if" .nowhere, condition, consequent, alternative] .nowhere) :
    ∃ a b c : Form, a.bare = condition ∧ b.bare = consequent ∧ c.bare = alternative ∧
      ∀ {v : Value}, (eval site a).Ends config s (.ok v t) → ∀ o,
        (eval site form).Ends config s o ↔
          (eval site (if v.isTruthy then b else c)).Ends config t o := by
  obtain ⟨place, rest, span, rfl, hrest⟩ := Form.exists_headed_of_bare hform
  obtain ⟨a, branches, rfl, ha, hbranches⟩ := List.map_eq_cons_iff.mp hrest
  obtain ⟨b, c, rfl, hb, hc⟩ := Form.exists_pair_of_bare hbranches
  refine ⟨a, b, c, ha, hb, hc, fun {v} hends o => ?_⟩
  have hshape : Shape.ofList span [.symbol "if" place, a, b, c] =
      .ok (.conditional a b (some c)) := rfl
  rw [ends_list_iff hshape]
  refine hends.bind_iff.trans ?_
  cases v.isTruthy <;> exact Iff.rfl

end Task

namespace Store.InMap

variable {body : Form}

/-- The condition `(null? l)` holds if the list is empty. -/
lemma ends_condition {form : Form} {items : List Value}
    (h : s.store.InMap site.env m f (.list lid items))
    (hform : form.bare = .list [.symbol "null?" .nowhere, .symbol "l" .nowhere] .nowhere) :
    (Task.eval site form).Ends config s (.ok (.bool items.isEmpty) s) :=
  @Task.ends_operation config s site _ form .isNull ["l"] [.list lid items] _ _ hform rfl
    (h.primitives _ (by decide)) (.cons h.list .nil) rfl rfl

/-- With an empty list, the body makes an empty list. -/
lemma ends_nil (h : s.store.InMap site.env m f (.list lid [])) (hbody : body.bare = Form.mapping) :
    (Task.eval site body).Ends config s (.ok (s.newList []).1 (s.newList []).2) := by
  obtain ⟨a, b, c, ha, hb, -, hends⟩ := @Task.exists_conditional_iff config s s site _ _ _ _ _ hbody
  have hlist := @Task.ends_operation config s site _ b .list [] [] _ _ hb rfl
    (h.primitives _ (by decide)) .nil rfl rfl
  exact (hends (h.ends_condition ha) _).mpr hlist

/-- The part `(f (car l))` calls `f` with the first element. -/
lemma ends_first {form : Form} (h : s.store.InMap site.env m f (.list lid (x :: xs)))
    (hform : form.bare = .list [.symbol "f" .nowhere,
      .list [.symbol "car" .nowhere, .symbol "l" .nowhere] .nowhere] .nowhere)
    (hf : f.isProcedure) :
    (Task.eval site form).Ends config s o ↔ (Task.call site.env f [x]).Ends config s o := by
  obtain ⟨args, hargs, hends⟩ :=
    @Task.exists_named_call_iff config s site _ form _ _ _ hform rfl h.procedure hf
  obtain ⟨a, rfl, ha⟩ := List.map_eq_singleton_iff.mp hargs
  have hcar := @Task.ends_operation config s site _ a .car ["l"] [.list lid (x :: xs)] _ _ ha rfl
    (h.primitives _ (by decide)) (.cons h.list .nil) rfl rfl
  have hargs : Settles (fun n => each (eval config n site) [a]) s (.ok [x] s) :=
    Settles.each_cons (f := fun n => eval config n site) hcar (.each_nil _ s)
  exact (hends o).trans hargs.bind_iff

/-- The part `(m f (cdr l))` makes a list of the elements after the first one, and calls `m` with
it. -/
lemma ends_rest {form : Form} (h : s.store.InMap site.env m f (.list lid (x :: xs)))
    (hform : form.bare = .list [.symbol "m" .nowhere, .symbol "f" .nowhere,
      .list [.symbol "cdr" .nowhere, .symbol "l" .nowhere] .nowhere] .nowhere)
    (hm : m.isProcedure) :
    (Task.eval site form).Ends config s o ↔
      (Task.call site.env m [f, (s.newList xs).1]).Ends config (s.newList xs).2 o := by
  obtain ⟨args, hargs, hends⟩ :=
    @Task.exists_named_call_iff config s site _ form _ _ _ hform rfl h.itself hm
  obtain ⟨a, b, rfl, ha, hb⟩ := Form.exists_pair_of_bare hargs
  have hcdr := @Task.ends_operation config s site _ b .cdr ["l"] [.list lid (x :: xs)] _ _ hb rfl
    (h.primitives _ (by decide)) (.cons h.list .nil) rfl rfl
  have hargs : Settles (fun n => each (eval config n site) [a, b]) s
      (.ok [f, (s.newList xs).1] (s.newList xs).2) :=
    Settles.each_cons (f := fun n => eval config n site) (Task.ends_symbol ha h.procedure)
      (Settles.each_cons (f := fun n => eval config n site) hcdr (.each_nil _ _))
  exact (hends o).trans hargs.bind_iff

/-- With another list, the body does one round. -/
lemma ends_cons (h : s.store.InMap site.env m f (.list lid (x :: xs)))
    (hbody : body.bare = Form.mapping) (hf : f.isProcedure) (hm : m.isProcedure) :
    (Task.eval site body).Ends config s o ↔
      Settles (fun n => mappingRound (call config n site.env) m f x xs) s o := by
  obtain ⟨a, b, c, ha, -, hc, hends⟩ := @Task.exists_conditional_iff config s s site _ _ _ _ _ hbody
  obtain ⟨args, hargs, hcons⟩ :=
    @Task.exists_named_call_iff config s site _ c _ _ _ hc rfl (h.primitives .cons (by decide)) rfl
  obtain ⟨first, rest, rfl, hfirst, hrest⟩ := Form.exists_pair_of_bare hargs
  refine (hends (h.ends_condition ha) o).trans ((hcons o).trans ?_)
  simp only [each, bind_assoc, pure_bind]
  refine (rising_eval config site first).settles_bind_congr (rising_call config site.env f [x])
    (fun o => h.ends_first hfirst hf) fun y t hy => ?_
  -- what was looked up before the call is found again after it
  have hunchanged : s.store.Unchanged t.store := ((h.ends_first hfirst hf).mp hy).unchanged rfl
  refine (rising_eval config site rest).settles_bind_congr
    ((Rising.const _).bind fun list => rising_call config site.env m [f, list])
    (fun o => (h.unchanged hunchanged).ends_rest hrest hm) fun ys u _ => Iff.rfl

end Store.InMap

/-! ## Calls -/

namespace Store.DefinesMap

variable {g : FrameId}

/-- A call of `m` evaluates its body where the names are seen that are used in it. -/
lemma ends_call (h : s.store.DefinesMap g id c) (env : FrameId) (f list : Value) :
    ∃ u : State, s.store.Unchanged u.store ∧ u.objects = s.objects ∧ u.output = s.output ∧
      u.store.InMap s.store.next (.closure id c) f list ∧
      ∀ o, (Task.call env (.closure id c) [f, list]).Ends ⟨.lexical, none⟩ s o ↔
        ∃ o', (Task.eval ⟨c.source, s.store.next⟩ c.body).Ends ⟨.lexical, none⟩ u o' ∧
          o = o'.leave := by
  refine ⟨Config.enter ⟨.lexical, none⟩ env c [f, list] s, Store.Unchanged.push _ _, rfl, rfl,
    h.inMap f list, fun o => Task.ends_closure_iff ?_ rfl⟩
  rw [h.params]
  rfl

end Store.DefinesMap

/-! ## The definition -/

/-- Where the primitive procedures are seen, evaluating the form `(define m (lambda (f l) …))`
defines the program. -/
theorem Store.DefinesMap.of_define {form : Form} (hform : form.bare = Form.mappingDefinition)
    (hs : s.store.Ordered) (hsite : site.env < s.store.next)
    (primitives : ∀ p ∈ mappingPrimitives, s.store.lookup site.env p.name = some (.primitive p)) :
    ∃ c t, (Task.eval site form).Ends config s (.ok .nil t) ∧
      t.store.DefinesMap site.env (.fresh s.objects) c := by
  obtain ⟨at₁, items, span, rfl, hitems⟩ := Form.exists_headed_of_bare hform
  obtain ⟨target, value, rfl, htarget, hvalue⟩ := Form.exists_pair_of_bare hitems
  obtain ⟨at₂, rfl⟩ := Form.exists_symbol_of_bare htarget
  obtain ⟨at₃, parts, lambda, rfl, hparts⟩ := Form.exists_headed_of_bare hvalue
  obtain ⟨params, body, rfl, hparams, hbody⟩ := Form.exists_pair_of_bare hparts
  obtain ⟨at₄, others, list, rfl, hothers⟩ := Form.exists_headed_of_bare hparams
  obtain ⟨param, rfl, hparam⟩ := List.map_eq_singleton_iff.mp hothers
  obtain ⟨at₅, rfl⟩ := Form.exists_symbol_of_bare hparam
  let c : Closure := ⟨["f", "l"], body, site.source, site.env⟩
  let m : Value := (s.newClosure c).1
  have hlambda : (Task.eval site (.list [.symbol "lambda" at₃,
      .list [.symbol "f" at₄, .symbol "l" at₅] list, body] lambda)).Ends config s
        (.ok m (s.newClosure c).2) :=
    (Task.ends_list_iff rfl).mpr (.of_forall fun _ => rfl)
  have hseen := hs.seenWith_define hsite "m" m
  refine ⟨c, (s.newClosure c).2.define site.env "m" m,
    (Task.ends_list_iff rfl).mpr (hlambda.bind (.of_forall fun _ => rfl)), fun p hp => ?_,
    hseen.exposed _ .here, rfl, hbody, rfl⟩
  have hname : p.name ≠ "m" := by
    simp only [mappingPrimitives, List.mem_cons, List.not_mem_nil, or_false] at hp
    obtain rfl | rfl | rfl | rfl | rfl := hp <;> decide
  exact (hseen.others _ _ fun h => hname h.1).trans (primitives p hp)

end SmallLisp
