import SmallLisp.Proofs.Evaluation.Lockstep

/-!
# Programs that do not depend on scoping

The body of a closure is evaluated in a frame inside the one in which the closure was made, or in a
snapshot of the one from which it is called.  The two differ only in what is seen of the names that
are neither parameters of the closure nor global.  A program that never looks at such a name is
capture-free (`Form.CaptureFree`), and it runs alike under both kinds of scoping
(`Run.ofForms_scoping`).

The stores of the two runs have little in common beyond the global frame.  What makes the argument
work is that a capture-free program defines names in the global frame only, and only outside of all
calls.  So all frames of calls bind nothing but parameters under lexical scoping, and the names that
are no parameters are found in the global frame from everywhere; and a snapshot, which has these
names as they are in the global frame when it is made, cannot be overtaken by a later definition
while it is in use.
-/

namespace SmallLisp

/-! ## Capture-free programs -/

namespace Form

mutual

/-- The symbols that occur in the form outside every `lambda` form, without those that introduce
special forms. -/
def mentions : Form → List String
  | int .. | float .. | str .. => []
  | symbol name _ => [name]
  | list items _ => if isLambda items then [] else mentionsFrom (introduction items) items

/-- The symbols in all but the first `n` of several forms. -/
def mentionsFrom : Nat → List Form → List String
  | _, [] => []
  | 0, form :: forms => form.mentions ++ mentionsFrom 0 forms
  | n + 1, _ :: forms => mentionsFrom n forms

end

lemma mentions_subset_mentionsFrom {form : Form} {forms : List Form} {n : Nat}
    (h : form ∈ forms.drop n) : form.mentions ⊆ mentionsFrom n forms := by
  induction forms generalizing n with
  | nil => simp at h
  | cons first rest ih =>
    cases n with
    | zero =>
      rw [mentionsFrom]
      rcases List.mem_cons.mp h with rfl | h
      · exact List.subset_append_left _ _
      · exact List.subset_append_of_subset_right _ (ih h)
    | succ n => exact ih h

/-- A list other than a `lambda` form mentions what its operands do. -/
lemma mentions_subset_mentions_list {items : List Form} {span : Span} {form : Form}
    (hplain : isLambda items = false) (h : form ∈ operands items) :
    form.mentions ⊆ (list items span).mentions := by
  rw [mentions, if_neg (by simp [hplain])]
  exact mentions_subset_mentionsFrom h

/-- The name is a parameter of a `lambda` form of the program. -/
def IsParam (program : List Form) (name : String) : Prop := ∃ l ∈ lambdas program, name ∈ l.1

/-- The bodies of `lambda` forms define nothing, and what they mention outside of further `lambda`
forms are their own parameters and names that are no parameters at all. -/
def CaptureFree (program : List Form) : Prop :=
  ∀ l ∈ lambdas program,
    l.2.targets = [] ∧ ∀ name ∈ l.2.mentions, name ∈ l.1 ∨ ¬ IsParam program name

instance (program : List Form) (name : String) : Decidable (IsParam program name) :=
  inferInstanceAs (Decidable (∃ l ∈ lambdas program, name ∈ l.1))

instance (program : List Form) : Decidable (CaptureFree program) :=
  inferInstanceAs (Decidable (∀ l ∈ lambdas program,
    l.2.targets = [] ∧ ∀ name ∈ l.2.mentions, name ∈ l.1 ∨ ¬ IsParam program name))

end Form

/-! ## Stores under the two kinds of scoping -/

variable {program : List Form}

/-- The stores of a run under lexical scoping and of one under flat scoping.  They have the global
frame in common; of the other frames only those under lexical scoping matter. -/
structure Store.Corresponds (program : List Form) (s s' : Store) : Prop where
  next : s'.next = s.next
  /-- The global frame has no parent. -/
  global : ∃ frame, s.frames[0]? = some frame ∧ s'.frames[0]? = some frame ∧ frame.parent = none
  /-- The frame of a call has a parent. -/
  inside : ∀ (id : FrameId) frame, 0 < id → s.frames[id]? = some frame →
    ∃ parent < id, frame.parent = some parent
  /-- The frame of a call binds parameters only. -/
  binds : ∀ (id : FrameId) frame x v, 0 < id → s.frames[id]? = some frame →
    frame.bindings.find? x = some v → Form.IsParam program x

namespace Store.Corresponds

variable {s s' : Store} {x : String}

lemma lookup_global (h : s.Corresponds program s') (x : String) : s'.lookup 0 x = s.lookup 0 x := by
  obtain ⟨frame, hframe, hframe', hroot⟩ := h.global
  rw [lookup_of_root hframe hroot, lookup_of_root hframe' hroot]

/-- Under lexical scoping the names that are no parameters are found in the global frame. -/
lemma lookup_eq_global (h : s.Corresponds program s') (hx : ¬ Form.IsParam program x)
    {id : FrameId} (hid : id < s.next) : s.lookup id x = s.lookup 0 x := by
  induction id using Nat.strongRecOn with
  | _ id ih =>
    rcases Nat.eq_zero_or_pos id with rfl | hpos
    · rfl
    · obtain ⟨frame, hframe⟩ : ∃ frame, s.frames[id]? = some frame :=
        ⟨_, Array.getElem?_eq_getElem hid⟩
      obtain ⟨parent, hlt, hparent⟩ := h.inside id frame hpos hframe
      have hnone : frame.bindings.find? x = none :=
        Option.eq_none_iff_forall_ne_some.mpr fun v hv => hx (h.binds id frame x v hpos hframe hv)
      rw [lookup_of_parent hframe hparent hlt, hnone, Option.none_or]
      exact ih parent hlt (Nat.lt_trans hlt hid)

/-- Definitions in the global frame are the same in both stores. -/
lemma define (h : s.Corresponds program s') (x : String) (v : Value) :
    (s.define 0 x v).Corresponds program (s'.define 0 x v) where
  next := by simp [h.next]
  global := by
    obtain ⟨frame, hframe, hframe', hparent⟩ := h.global
    refine ⟨{ frame with bindings := frame.bindings.insert x v }, ?_, ?_, hparent⟩
    · simp [Store.define, Array.getElem?_modify, hframe]
    · simp [Store.define, Array.getElem?_modify, hframe']
  inside id frame hpos hframe := by
    rw [Store.define, Array.getElem?_modify, if_neg (Nat.ne_of_lt hpos)] at hframe
    exact h.inside id frame hpos hframe
  binds id frame y w hpos hframe := by
    rw [Store.define, Array.getElem?_modify, if_neg (Nat.ne_of_lt hpos)] at hframe
    exact h.binds id frame y w hpos hframe

/-- A frame inside an older one that binds parameters only, and a snapshot. -/
lemma push (h : s.Corresponds program s') {frame frame' : Frame} {parent : FrameId}
    (hparent : frame.parent = some parent) (hlt : parent < s.next)
    (hbinds : ∀ x v, frame.bindings.find? x = some v → Form.IsParam program x) :
    (s.push frame).Corresponds program (s'.push frame') := by
  refine ⟨by simp [h.next], ?_, ?_, ?_⟩
  · obtain ⟨first, hfirst, hfirst', hroot⟩ := h.global
    refine ⟨first, ?_, ?_, hroot⟩
    · rw [(Unchanged.push s frame).frames 0 (lt_next_of_getElem? hfirst), hfirst]
    · rw [(Unchanged.push s' frame').frames 0 (lt_next_of_getElem? hfirst'), hfirst']
  · intro id f hpos hf
    rcases getElem?_push_cases hf with hf | ⟨rfl, rfl⟩
    · exact h.inside id f hpos hf
    · exact ⟨parent, hlt, hparent⟩
  · intro id f x v hpos hf hx
    rcases getElem?_push_cases hf with hf | ⟨rfl, rfl⟩
    · exact h.binds id f x v hpos hf hx
    · exact hbinds x v hx

end Store.Corresponds

/-! ## What is seen under the two kinds of scoping -/

/-- What a call from a frame needs: under flat scoping, the names that are no parameters are seen
from it as they are in the global frame. -/
structure Store.Caller (program : List Form) (env : FrameId) (s s' : Store) : Prop where
  exists_frame : env < s.next
  exists_frame' : env < s'.next
  outside : ∀ x, ¬ Form.IsParam program x → s'.lookup env x = s'.lookup 0 x

/-- What the evaluation of a form in a frame needs: outside of the global frame, the form defines
nothing, and what it mentions is the same in both runs. -/
structure Store.View (program : List Form) (env : FrameId) (form : Form) (s s' : Store) : Prop
    extends Store.Caller program env s s' where
  agrees : env = 0 ∨ form.targets = [] ∧ ∀ x ∈ form.mentions, s'.lookup env x = s.lookup env x

namespace Store

variable {s s' t t' : Store} {env : FrameId} {form : Form}

/-- Everything can be evaluated in the global frame. -/
lemma View.global (hnext : 0 < s.next) (hnext' : 0 < s'.next) (form : Form) :
    View program 0 form s s' :=
  ⟨⟨hnext, hnext', fun _ _ => rfl⟩, .inl rfl⟩

/-- The operands of a form can be evaluated where the form can. -/
lemma View.operand {items : List Form} {span : Span} (h : View program env (.list items span) s s')
    (hplain : Form.isLambda items = false) (hform : form ∈ Form.operands items) :
    View program env form s s' := by
  refine ⟨h.toCaller, h.agrees.imp_right fun ⟨htargets, hmentions⟩ => ⟨?_, fun x hx => ?_⟩⟩
  · have hsub : form.targets ⊆ (Form.list items span).targets :=
      Form.targets_subset_targets_list hplain (Form.operands_subset items hform)
    exact List.subset_nil.mp (htargets ▸ hsub)
  · exact hmentions x (Form.mentions_subset_mentions_list hplain hform hx)

/-- A frame in which nothing is defined can be used for further calls. -/
lemma Caller.stable (h : Caller program env s s') (hst : s.next ≤ t.next)
    (hst' : s'.ChangedAt env [] t') : Caller program env t t' := by
  refine ⟨Nat.lt_of_lt_of_le h.exists_frame hst,
    Nat.lt_of_lt_of_le h.exists_frame' hst'.grows, fun x hx => ?_⟩
  rw [hst'.lookup_eq h.exists_frame', hst'.lookup_eq (Nat.zero_lt_of_lt h.exists_frame'),
    h.outside x hx]

/-- After an evaluation of the form, or of a part of it, the rest can still be evaluated. -/
lemma View.stable (h : View program env form s s') (hst : s.ChangedAt env form.targets t)
    (hst' : s'.ChangedAt env form.targets t') : View program env form t t' := by
  rcases h.agrees with rfl | ⟨htargets, hmentions⟩
  · exact View.global (Nat.lt_of_lt_of_le h.exists_frame hst.grows)
      (Nat.lt_of_lt_of_le h.exists_frame' hst'.grows) form
  · rw [htargets] at hst hst'
    refine ⟨h.toCaller.stable hst.grows hst', .inr ⟨htargets, fun x hx => ?_⟩⟩
    rw [hst'.lookup_eq h.exists_frame', hst.lookup_eq h.exists_frame, hmentions x hx]

/-- The names that a call binds are the parameters of the closure. -/
lemma findBinding?_params_eq_none_iff {c : Closure} {args : List Value} {x : String}
    (hcount : args.length = c.params.length) :
    findBinding? x (c.params.zip args).reverse = none ↔ x ∉ c.params := by
  rw [findBinding?_eq_none_iff, List.map_reverse, List.mem_reverse,
    List.map_fst_zip (Nat.le_of_eq hcount.symm)]

/-- The frames of a call see the parameters alike, and the names that are no parameters as they are
in the global frame. -/
lemma View.entered (hfree : Form.CaptureFree program) {c : Closure} {args : List Value}
    (hR : s.Corresponds program s') (hcaller : Caller program env s s')
    (hc : c.Known program s.next) (hcount : args.length = c.params.length) :
    View program s.next c.body (s.push (Frame.inside c.env (c.params.zip args)))
      (s'.push (s'.snapshot env (c.params.zip args))) := by
  have hnext : 0 < s.next := Nat.zero_lt_of_lt hc.env
  have hparam {x : String} (hx : x ∈ c.params) : Form.IsParam program x := ⟨_, hc.form, hx⟩
  refine ⟨⟨by simp, by simp [hR.next], fun x hx => ?_⟩,
    .inr ⟨(hfree _ hc.form).1, fun x hx => ?_⟩⟩
  · have hbound : findBinding? x (c.params.zip args).reverse = none :=
      (findBinding?_params_eq_none_iff hcount).mpr fun hmem => hx (hparam hmem)
    rw [← hR.next, lookup_snapshot, hbound, Option.none_or, hcaller.outside x hx,
      lookup_push _ (hR.next ▸ hnext)]
  · rw [← hR.next, lookup_snapshot, hR.next, lookup_inside hc.env]
    rcases (hfree _ hc.form).2 x hx with hmem | hout
    · have hbound : findBinding? x (c.params.zip args).reverse ≠ none :=
        fun hnone => (findBinding?_params_eq_none_iff hcount).mp hnone hmem
      obtain ⟨v, hv⟩ := Option.ne_none_iff_exists'.mp hbound
      rw [hv, Option.some_or, Option.some_or]
    · rw [hcaller.outside x hout, hR.lookup_global, hR.lookup_eq_global hout hc.env]

end Store

/-! ## Runs under the two kinds of scoping -/

/-- A capture-free program is evaluated alike under both kinds of scoping. -/
theorem lockstep_scoping (hfree : Form.CaptureFree program) (maxDepth : Option Nat) :
    Lockstep program ⟨.lexical, maxDepth⟩ ⟨.flat, maxDepth⟩ (Store.Corresponds program)
      (Store.View program) (Store.Caller program) where
  limit := rfl
  next h := h.next
  lookup h hview := by
    rcases hview.agrees with rfl | ⟨-, hmentions⟩
    · exact h.lookup_global _
    · exact hmentions _ (by simp [Form.mentions])
  define h hview hwritten v := by
    rcases hview.agrees with rfl | ⟨htargets, -⟩
    · exact h.define _ v
    · cases hwritten
      exact absurd (htargets ▸ Form.mem_targets_define) List.not_mem_nil
  part h hplain hform := h.operand hplain hform
  calls h := h.toCaller
  exists_frame h := h.exists_frame
  view_stable h _ hst hst' := h.stable hst hst'
  caller_stable h _ hst hst' := h.stable hst.grows (hst'.changedAt _ [])
  enter {env c args s s'} h hcaller hc hcount := by
    refine ⟨h.push rfl hc.env fun x v hx => ⟨_, hc.form, ?_⟩, .entered hfree h hcaller hc hcount⟩
    rcases Bindings.mem_or_find?_of_insertAll hx with hmem | hnone
    · exact (List.of_mem_zip hmem).1
    · cases hnone

/-- The global frame is all that there is at the start. -/
lemma corresponds_start (program : List Form) :
    Store.Corresponds program Run.start.store Run.start.store := by
  have hfirst (id : FrameId) frame (hpos : 0 < id) : Run.start.store.frames[id]? ≠ some frame := by
    intro hframe
    have hlt : id < 1 := Lockstep.next_start ▸ Store.lt_next_of_getElem? hframe
    exact absurd hpos (Nat.not_lt.mpr (Nat.le_of_lt_succ hlt))
  have hroot : Run.start.store.frames[0]?.map (·.parent) = some none := by decide +kernel
  obtain ⟨frame, hframe, hparent⟩ := Option.map_eq_some_iff.mp hroot
  exact ⟨rfl, ⟨frame, hframe, hframe, hparent⟩,
    fun id frame hpos hframe => absurd hframe (hfirst id frame hpos),
    fun id frame _ _ hpos hframe => absurd hframe (hfirst id frame hpos)⟩

namespace Run

/-- A capture-free program does the same under lexical and under flat scoping: it ends in the same
way, with the same value or the same error, or it ends in neither case; and it prints the same. -/
theorem ofForms_scoping [Machine] (forms : List Form) (hfree : Form.CaptureFree forms)
    (maxDepth : Option Nat) (fuel : Nat) :
    ofForms fuel ⟨.lexical, maxDepth⟩ forms = ofForms fuel ⟨.flat, maxDepth⟩ forms := by
  have halike := (lockstep_scoping hfree maxDepth).program_alike
    (fun form _ s s' hR hnext => .global hnext (hR.next ▸ hnext) form) (corresponds_start forms)
    fuel
  unfold ofForms
  generalize (Task.sequence site forms).run ⟨.lexical, maxDepth⟩ fuel start = o at halike ⊢
  generalize (Task.sequence site forms).run ⟨.flat, maxDepth⟩ fuel start = o' at halike ⊢
  cases halike with
  | ok states | error states => simp only [ofOutcome, states.output]
  | exhausted => rfl

section

open scoped Machine

/-- A procedure that calls itself, and one that takes a procedure. -/
theorem ofForms_scoping_recursion :
    let source :=
      "(define down (lambda (n) (if (> n 0) (down (- n 1)) (write-line n))))
      ((lambda (f) (f 2)) down)"
    ∃ forms, read source = .ok forms ∧ Form.CaptureFree forms ∧
      ofForms 30 ⟨.lexical, some 6⟩ forms = ofForms 30 ⟨.flat, some 6⟩ forms ∧
      (ofForms 30 ⟨.flat, some 6⟩ forms).map printed = some "0\n" := by
  intro source
  have hforms : (read source).toOption.map (fun forms =>
      (decide (Form.CaptureFree forms), (ofForms 30 ⟨.flat, some 6⟩ forms).map printed)) =
        some (true, some "0\n") := by
    decide +kernel
  cases hread : read source with
  | error e =>
    rw [hread] at hforms
    cases hforms
  | ok forms =>
    rw [hread] at hforms
    obtain ⟨hfree, hprinted⟩ := Prod.mk.inj (Option.some.inj hforms)
    have hfree := of_decide_eq_true hfree
    exact ⟨forms, rfl, hfree, ofForms_scoping forms hfree (some 6) 30, hprinted⟩

end

end Run

end SmallLisp
