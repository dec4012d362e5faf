import SmallLisp.Proofs.Evaluation.Keeps
import SmallLisp.Proofs.Evaluation.Primitive
import SmallLisp.Proofs.Form.Shape

/-!
# Evaluations are isolated from each other

An evaluation may define names in the frame in which it runs, and in frames that it makes itself.
Here it is shown that this is all: no other frame is touched, and in its own frame only those names
can change that the form defines outside the bodies of its `lambda` forms (`Form.targets`).  A call
does not even touch the frame it is made from.

Both statements are about stores.  `Store.Unchanged` and `Store.ChangedAt` are preorders, so they
are passed on from the parts of an evaluation to the whole, and the one step that needs an argument
is the call of a closure.  Its body runs in a frame that is newer than every frame of the caller;
whatever the body defines there, the caller's frames stay as they were.
-/

namespace SmallLisp

/-! ## Names that a form defines in its own frame -/

namespace Form

/-- Whether a list is a `lambda` form. -/
def isLambda : List Form → Bool
  | .symbol head _ :: _ => head == SpecialForm.lambda.name
  | _ => false

/-- The name that a list defines, if it is a `define` form. -/
def defined? : List Form → Option String
  | [.symbol head _, .symbol name _, _] =>
    if head = SpecialForm.define.name then some name else none
  | _ => none

mutual

/-- The targets of the `define` forms that occur in a form outside every `lambda` form. -/
def targets : Form → List String
  | int .. | float .. | str .. | symbol .. => []
  | list items _ => if isLambda items then [] else (defined? items).toList ++ targetsAll items

/-- The targets in several forms. -/
def targetsAll : List Form → List String
  | [] => []
  | form :: forms => form.targets ++ targetsAll forms

end

lemma targets_subset_targetsAll {form : Form} {forms : List Form} (h : form ∈ forms) :
    form.targets ⊆ targetsAll forms := by
  induction forms with
  | nil => cases h
  | cons first rest ih =>
    rw [targetsAll]
    rcases List.mem_cons.mp h with rfl | h
    · exact List.subset_append_left _ _
    · exact List.subset_append_of_subset_right _ (ih h)

variable {items : List Form} {span : Span}

/-- The targets of a list other than a `lambda` form include those of its elements. -/
lemma targets_subset_targets_list (h : isLambda items = false) {form : Form} (hf : form ∈ items) :
    form.targets ⊆ (list items span).targets := by
  rw [targets, if_neg (by simp [h])]
  exact List.subset_append_of_subset_right _ (targets_subset_targetsAll hf)

lemma mem_targets_define {at₁ at₂ : Span} {name : String} {value : Form} :
    name ∈ (list [.symbol "define" at₁, .symbol name at₂, value] span).targets := by
  simp [targets, isLambda, defined?, SpecialForm.name]

/-- A call is no `lambda` form. -/
lemma isLambda_of_plain {head : Form} {args : List Form}
    (plain : head.symbol?.bind SpecialForm.ofName? = none) : isLambda (head :: args) = false := by
  cases head with
  | symbol name span =>
    simp only [isLambda, beq_eq_false_iff_ne]
    rintro rfl
    cases plain
  | _ => rfl

end Form

/-! ## Changes to a store -/

namespace Store

/-- Every frame of `s` is still there in `t`, as it was. -/
structure Unchanged (s t : Store) : Prop where
  grows : s.next ≤ t.next
  frames : ∀ id < s.next, t.frames[id]? = s.frames[id]?

/-- Every frame of `s` is still there in `t` with its parent.  All of them have the bindings that
they had, except that in the frame `env` some of `names` may be bound anew. -/
structure ChangedAt (env : FrameId) (names : List String) (s t : Store) : Prop where
  grows : s.next ≤ t.next
  others : ∀ id < s.next, id ≠ env → t.frames[id]? = s.frames[id]?
  own : ∀ frame, s.frames[env]? = some frame → ∃ frame', t.frames[env]? = some frame' ∧
    frame'.parent = frame.parent ∧
      ∀ name, name ∉ names → frame'.bindings.find? name = frame.bindings.find? name

variable {env : FrameId} {names names' : List String} {s t u : Store}

lemma lt_next_of_getElem? {id : FrameId} {frame : Frame} (h : s.frames[id]? = some frame) :
    id < s.next := (Array.getElem?_eq_some_iff.mp h).1

@[simp] lemma next_push (s : Store) (frame : Frame) : (s.push frame).next = s.next + 1 :=
  Array.size_push _

@[simp] lemma next_define (s : Store) (env : FrameId) (name : String) (v : Value) :
    (s.define env name v).next = s.next :=
  Array.size_modify

namespace Unchanged

lemma refl (s : Store) : s.Unchanged s := ⟨Nat.le_refl _, fun _ _ => rfl⟩

lemma trans (hst : s.Unchanged t) (htu : t.Unchanged u) : s.Unchanged u where
  grows := Nat.le_trans hst.grows htu.grows
  frames id hid := (htu.frames id (Nat.lt_of_lt_of_le hid hst.grows)).trans (hst.frames id hid)

instance : IsPreorder State fun s t => s.store.Unchanged t.store where
  refl s := refl s.store
  trans _ _ _ := trans

lemma changedAt (h : s.Unchanged t) (env : FrameId) (names : List String) :
    s.ChangedAt env names t where
  grows := h.grows
  others id hid _ := h.frames id hid
  own frame hf := ⟨frame, (h.frames env (lt_next_of_getElem? hf)).trans hf, rfl, fun _ _ => rfl⟩

/-- Making a frame leaves the others as they were. -/
lemma push (s : Store) (frame : Frame) : s.Unchanged (s.push frame) where
  grows := by simp
  frames id hid := by
    simp only [Store.push, Store.next] at hid ⊢
    rw [Array.getElem?_push_lt hid, Array.getElem?_eq_getElem hid]

end Unchanged

namespace ChangedAt

lemma trans (hst : s.ChangedAt env names t) (htu : t.ChangedAt env names u) :
    s.ChangedAt env names u where
  grows := Nat.le_trans hst.grows htu.grows
  others id hid hne :=
    (htu.others id (Nat.lt_of_lt_of_le hid hst.grows) hne).trans (hst.others id hid hne)
  own frame hf := by
    obtain ⟨frame', hf', hparent', hfind'⟩ := hst.own frame hf
    obtain ⟨frame'', hf'', hparent'', hfind''⟩ := htu.own frame' hf'
    exact ⟨frame'', hf'', hparent''.trans hparent',
      fun name hn => (hfind'' name hn).trans (hfind' name hn)⟩

instance (env : FrameId) (names : List String) :
    IsPreorder State fun s t => s.store.ChangedAt env names t.store where
  refl s := (Unchanged.refl s.store).changedAt env names
  trans _ _ _ := trans

lemma mono (h : s.ChangedAt env names t) (hsub : names ⊆ names') : s.ChangedAt env names' t where
  grows := h.grows
  others := h.others
  own frame hf := by
    obtain ⟨frame', hf', hparent, hfind⟩ := h.own frame hf
    exact ⟨frame', hf', hparent, fun name hn => hfind name fun hmem => hn (hsub hmem)⟩

/-- A definition changes one name in one frame. -/
lemma define (s : Store) (env : FrameId) (name : String) (value : Value) :
    s.ChangedAt env [name] (s.define env name value) where
  grows := by simp
  others id _ hne := by
    simp only [Store.define, Array.getElem?_modify, if_neg (Ne.symm hne)]
  own frame hf := by
    refine ⟨{ frame with bindings := frame.bindings.insert name value }, ?_, rfl,
      fun name' hn => ?_⟩
    · simp [Store.define, Array.getElem?_modify, hf]
    rw [Bindings.find?_insert, if_neg (by simpa using hn)]

/-- What happens in a frame made after `s` leaves all frames of `s` as they were. -/
lemma unchanged_of_push {frame : Frame} (h : (s.push frame).ChangedAt s.next names t) :
    s.Unchanged t where
  grows := Nat.le_trans (Unchanged.push s frame).grows h.grows
  frames id hid := by
    have hpush := Unchanged.push s frame
    rw [h.others id (Nat.lt_of_lt_of_le hid hpush.grows) (Nat.ne_of_lt hid), hpush.frames id hid]

end ChangedAt

end Store

/-! ## One step -/

section Step

open EvalM

variable {eval : Site → Form → EvalM Value} {call : FrameId → Value → List Value → EvalM Value}

/-- Evaluations at a site change its frame at the targets of their form, and calls change
nothing. -/
structure Isolated (eval : Site → Form → EvalM Value)
    (call : FrameId → Value → List Value → EvalM Value) : Prop where
  eval_keeps : ∀ site form,
    (eval site form).Keeps fun s t => s.store.ChangedAt site.env form.targets t.store
  call_keeps : ∀ env callee args,
    (call env callee args).Keeps fun s t => s.store.Unchanged t.store

namespace Isolated

lemma eval_keeps_of_subset (h : Isolated eval call) {site : Site} {form : Form}
    {names : List String} (hsub : form.targets ⊆ names) :
    (eval site form).Keeps fun s t => s.store.ChangedAt site.env names t.store :=
  (h.eval_keeps site form).mono fun _ _ hst => hst.mono hsub

lemma evalShape (h : Isolated eval call) (site : Site) {span : Span} {items : List Form}
    {shape : Shape} (hw : Shape.Written items shape) :
    (evalShape eval call site shape).Keeps fun s t =>
      s.store.ChangedAt site.env (Form.list items span).targets t.store := by
  cases hw with
  | lambda =>
    simp only [SmallLisp.evalShape]
    exact Keeps.update fun s => (Store.Unchanged.refl s.store).changedAt _ _
  | @conditional at₁ condition consequent alternative =>
    have hpart (form : Form)
        (hform : form ∈ .symbol "if" at₁ :: condition :: consequent :: alternative.toList) :
        form.targets ⊆ (Form.list (.symbol "if" at₁ :: condition :: consequent ::
          alternative.toList) span).targets :=
      Form.targets_subset_targets_list rfl hform
    refine Keeps.bind (h.eval_keeps_of_subset (hpart condition (by simp))) ?_
    intro value
    split
    · exact h.eval_keeps_of_subset (hpart consequent (by simp))
    · cases alternative with
      | none => exact Keeps.pure _
      | some form => exact h.eval_keeps_of_subset (hpart form (by simp))
  | @define at₁ at₂ name value =>
    refine Keeps.bind (h.eval_keeps_of_subset ?_) fun v => Keeps.update fun s => ?_
    · exact Form.targets_subset_targets_list rfl (by simp)
    · refine (Store.ChangedAt.define s.store site.env name v).mono ?_
      simpa using Form.mem_targets_define
  | sequence =>
    refine Keeps.sequence (fun form hf => h.eval_keeps_of_subset ?_) _
    exact Form.targets_subset_targets_list rfl (List.mem_cons_of_mem _ hf)
  | @call head args plain =>
    have hpart {form : Form} (hform : form ∈ head :: args) :
        form.targets ⊆ (Form.list (head :: args) span).targets :=
      Form.targets_subset_targets_list (Form.isLambda_of_plain plain) hform
    refine Keeps.bind (h.eval_keeps_of_subset (hpart List.mem_cons_self)) ?_
    intro callee
    split
    · refine Keeps.bind (Keeps.each fun form hf => h.eval_keeps_of_subset ?_) fun values => ?_
      · exact hpart (List.mem_cons_of_mem _ hf)
      · exact (h.call_keeps _ _ _).mono fun _ _ hst => hst.changedAt _ _
    · exact Keeps.fail _

lemma evalForm (h : Isolated eval call) (site : Site) (form : Form) :
    (evalForm eval call site form).Keeps fun s t =>
      s.store.ChangedAt site.env form.targets t.store := by
  cases form with
  | int | float | str => exact Keeps.pure _
  | symbol name span => exact Keeps.resolve _ _ _
  | list items span =>
    simp only [SmallLisp.evalForm]
    split
    · next shape hs => exact h.evalShape site (Shape.written_of_ofList hs)
    · exact Keeps.fail _

lemma callClosure (h : Isolated eval call) (config : Config) (env : FrameId) (c : Closure)
    (args : List Value) :
    (callClosure eval config env c args).Keeps fun s t => s.store.Unchanged t.store := by
  intro s t ht
  unfold SmallLisp.callClosure at ht
  split at ht
  · split at ht
    · cases ht
      exact Store.Unchanged.refl s.store
    · -- the body runs in the frame that is made for it, the newest one
      have hbody : (nested (eval ⟨c.source, s.store.next⟩ c.body)).Keeps
          fun s' t => s'.store.ChangedAt s.store.next c.body.targets t.store :=
        Keeps.nested fun s' t ht => h.eval_keeps _ _ { s' with depth := s'.depth + 1 } t ht
      exact (hbody _ t ht).unchanged_of_push
  · cases ht
    exact Store.Unchanged.refl s.store

lemma applyBody (h : Isolated eval call) (env : FrameId) (f args : Value) :
    (applyBody call env f args).Keeps fun s t => s.store.Unchanged t.store := by
  unfold SmallLisp.applyBody
  split
  · exact Keeps.bind (Keeps.orFault _ _) fun values => h.call_keeps _ _ _
  · exact Keeps.fail _

lemma mapBody (h : Isolated eval call) (env : FrameId) (f list : Value) (lists : List Value) :
    (mapBody call env f list lists).Keeps fun s t => s.store.Unchanged t.store := by
  unfold SmallLisp.mapBody
  split
  · refine Keeps.bind (Keeps.orFault _ _) ?_
    intro first
    refine Keeps.bind (Keeps.each fun v _ => Keeps.orFault _ _) ?_
    intro others
    refine Keeps.bind (Keeps.each fun column _ => h.call_keeps _ _ _) ?_
    intro results
    exact Keeps.update fun s => Store.Unchanged.refl s.store
  · exact Keeps.fail _

lemma callPrimitive [Machine] (h : Isolated eval call) (env : FrameId) (p : Primitive)
    (args : List Value) :
    (callPrimitive call env p args).Keeps fun s t => s.store.Unchanged t.store := by
  unfold SmallLisp.callPrimitive
  split
  · next m hm =>
    cases Primitive.called_of_run?_body hm with
    | operation =>
      refine Keeps.bind (Keeps.orFault _ _) fun answer => Keeps.update ?_
      intro s
      cases answer <;> exact Store.Unchanged.refl s.store
    | application f list => exact h.applyBody env f list
    | mapping f list lists => exact h.mapBody env f list lists
    | printing v => exact Keeps.update fun s => Store.Unchanged.refl s.store
  · exact Keeps.fail _

lemma callValue [Machine] (h : Isolated eval call) (config : Config) (env : FrameId)
    (callee : Value) (args : List Value) :
    (callValue eval call config env callee args).Keeps fun s t => s.store.Unchanged t.store := by
  unfold SmallLisp.callValue
  split
  · exact h.callPrimitive _ _ _
  · exact h.callClosure _ _ _ _
  · exact Keeps.fail _

end Isolated

end Step

/-! ## All steps -/

lemma isolated_evaluator [Machine] (config : Config) (fuel : Nat) :
    Isolated (eval config fuel) (call config fuel) := by
  refine evaluator_induction config ⟨fun _ _ => .exhausted, fun _ _ _ => .exhausted⟩ ?_ fuel
  intro eval call h
  exact ⟨h.evalForm, h.callValue config⟩

/-- An evaluation leaves every frame that existed before as it was, with the exception of its own
frame, in which it binds only targets of `define` forms that stand outside `lambda` bodies.  A call,
of any value or of a primitive procedure, leaves all of them as they were. -/
theorem evaluator_changes_only_targets [Machine] (config : Config) (fuel : Nat) :
    (∀ site form, (eval config fuel site form).Keeps
      fun s t => s.store.ChangedAt site.env form.targets t.store) ∧
    (∀ env callee args, (call config fuel env callee args).Keeps
      fun s t => s.store.Unchanged t.store) ∧
    (∀ env p args, (callPrimitive (call config fuel) env p args).Keeps
      fun s t => s.store.Unchanged t.store) := by
  have h := isolated_evaluator config fuel
  exact ⟨h.eval_keeps, h.call_keeps, h.callPrimitive⟩

section

open scoped Machine

/-- The text `(begin (define x 1) ((lambda (y) (define x y)) 2))` has two definitions of `x`.  The
first one is made in the frame that was there before, and the second one in that of the call. -/
theorem evaluator_changes_only_targets_shadowed :
    ∃ form t, form.text = "(begin (define x 1) ((lambda (y) (define x y)) 2))" ∧
      form.targets = ["x"] ∧ (eval {} 5 ⟨0, 0⟩ form { store := ⟨#[{}]⟩ }).state? = some t ∧
      (t.store.locals 0).find? "x" = some (.int 1) ∧
      (t.store.locals 1).find? "x" = some (.int 2) ∧
      Store.ChangedAt 0 form.targets ⟨#[{}]⟩ t.store := by
  refine ⟨.list [.symbol "begin" .nowhere,
    .list [.symbol "define" .nowhere, .symbol "x" .nowhere, .int 1 .nowhere] .nowhere,
    .list [.list [.symbol "lambda" .nowhere, .list [.symbol "y" .nowhere] .nowhere,
        .list [.symbol "define" .nowhere, .symbol "x" .nowhere, .symbol "y" .nowhere] .nowhere]
        .nowhere,
      .int 2 .nowhere] .nowhere] .nowhere, _, by cbv, by cbv, by cbv, by cbv, by cbv, ?_⟩
  exact (evaluator_changes_only_targets {} 5).1 ⟨0, 0⟩ _ { store := ⟨#[{}]⟩ } _ (by cbv)

end

end SmallLisp
