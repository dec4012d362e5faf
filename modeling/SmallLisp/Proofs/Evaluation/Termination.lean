import Mathlib
import SmallLisp.Proofs.Evaluation.Task
import SmallLisp.Proofs.Form.Shape

/-!
# Evaluations under a limit on calls end

Under a limit on the calls in progress every evaluation ends (`limited_evaluation_ends`), in every
state, also in one that no program leads to.

The limit alone does not show this, because evaluations also nest without a call of a closure in
between.  What an evaluation starts has a smaller measure (`Starts.measure_lt`), which is compared
in three steps.

* The body of a closure is evaluated with one call less that is still allowed.
* Otherwise the arguments of a call are evaluated before the call, so that a call comes after an
  evaluation of forms.
* Otherwise forms start parts of themselves, and `apply` and `map` call a procedure with values
  that are parts of their own arguments.
-/

namespace SmallLisp

open EvalM

/-! ## Calls in progress -/

/-- An evaluation leaves as many calls in progress as it finds. -/
lemma respected_depth : Respected fun s t => t.depth = s.depth where
  refl _ := rfl
  trans _ _ _ hst htu := htu.trans hst
  object _ := rfl
  define _ _ _ _ := rfl
  print _ _ := rfl
  body s frame t h := by
    change t.depth = s.depth + 1 at h
    simp [h]

variable {config : Config} {s u : State}

lemma Task.Ends.depth_eq [Machine] {t : Task} {value : Value} (h : t.Ends config s (.ok value u)) :
    u.depth = s.depth :=
  h.keeps respected_depth

lemma EvalM.Settles.depth_eq_of_each {α : Type} {f : Nat → α → EvalM Value} {l : List α}
    {values : List Value} (hf : ∀ n a, (f n a).Keeps fun s t => t.depth = s.depth)
    (h : Settles (fun n => each (f n) l) s (.ok values u)) : u.depth = s.depth :=
  Task.keeps_each respected_depth hf h

/-! ## Sizes -/

namespace Form

mutual

/-- The number of nodes of the form. -/
def size : Form → Nat
  | int .. | float .. | str .. | symbol .. => 1
  | list items _ => 1 + sizeAll items

/-- The number of nodes of several forms. -/
def sizeAll : List Form → Nat
  | [] => 0
  | form :: forms => form.size + sizeAll forms

end

lemma size_le_sizeAll {form : Form} {forms : List Form} (h : form ∈ forms) :
    form.size ≤ sizeAll forms := by
  induction forms with
  | nil => cases h
  | cons first rest ih =>
    rw [sizeAll]
    rcases List.mem_cons.mp h with rfl | h
    · exact Nat.le_add_right _ _
    · exact Nat.le_trans (ih h) (Nat.le_add_left _ _)

end Form

namespace Value

mutual

/-- The number of values that the value consists of. -/
def size : Value → Nat
  | int _ | float _ | str .. | bool _ | nil | closure .. | primitive _ => 1
  | list _ items => 1 + sizeAll items

/-- The number of values that several values consist of. -/
def sizeAll : List Value → Nat
  | [] => 0
  | v :: vs => v.size + sizeAll vs

end

end Value

namespace Lists

open Value

/-- The first elements of several lists are parts of the lists. -/
lemma sizeAll_heads_le (rows : List (List Value)) :
    sizeAll (rows.filterMap List.head?) ≤ (rows.map sizeAll).sum := by
  induction rows with
  | nil => exact Nat.le_refl _
  | cons row rows ih =>
    cases row with
    | nil => simpa [List.filterMap_cons, sizeAll] using ih
    | cons v vs =>
      simp only [List.filterMap_cons, List.head?_cons, sizeAll, List.map_cons, List.sum_cons]
      omega

/-- The other elements of several lists are parts of the lists. -/
lemma sizeAll_tails_le (rows : List (List Value)) :
    ((rows.map List.tail).map sizeAll).sum ≤ (rows.map sizeAll).sum := by
  induction rows with
  | nil => exact Nat.le_refl _
  | cons row rows ih =>
    cases row with
    | nil => simpa [sizeAll] using ih
    | cons v vs =>
      simp only [List.map_cons, List.tail_cons, sizeAll, List.sum_cons]
      omega

/-- The values in a column are parts of the lists that are mapped over. -/
lemma sizeAll_column_le {first column : List Value} {others : List (List Value)}
    (h : column ∈ columns first others) :
    sizeAll column ≤ sizeAll first + (others.map sizeAll).sum := by
  induction first generalizing others with
  | nil => cases h
  | cons v rest ih =>
    rw [columns] at h
    split at h
    · cases h
    · rw [sizeAll]
      rcases List.mem_cons.mp h with rfl | h
      · have hheads := sizeAll_heads_le others
        rw [sizeAll]
        omega
      · have hrest := ih h
        have htails := sizeAll_tails_le others
        omega

/-- The rows that are mapped over are parts of the arguments. -/
lemma sum_sizeAll_rows_le {lists : List Value} {rows : List (List Value)}
    (h : lists.mapM argument = .ok rows) : (rows.map sizeAll).sum ≤ sizeAll lists := by
  induction lists generalizing rows with
  | nil =>
    cases h
    exact Nat.le_refl _
  | cons v rest ih =>
    obtain ⟨id, items, others, rfl, hrest, rfl⟩ := exists_rows_of_cons h
    have hothers := ih hrest
    simp only [List.map_cons, List.sum_cons, sizeAll, size]
    omega

end Lists

/-! ## The measure -/

namespace Task

/-- Whether forms are still to be evaluated, or their values are at hand. -/
def rank : Task → Nat
  | eval .. | sequence .. => 1
  | call .. => 0

/-- The size of what the task is about. -/
def size : Task → Nat
  | eval _ form => form.size
  | sequence _ forms => 1 + Form.sizeAll forms
  | call _ callee args => callee.size + Value.sizeAll args

/-- What decreases under a limit of `n` calls from a task to those that it starts. -/
def measure (n : Nat) (t : Task) (s : State) : Nat ×ₗ Nat ×ₗ Nat :=
  toLex (n - s.depth, toLex (t.rank, t.size))

/-- A part of a list is smaller than the list. -/
lemma size_lt_of_mem {site : Site} {form : Form} {items : List Form} {span : Span}
    (h : form ∈ items) : (eval site form).size < (eval site (.list items span)).size := by
  have hle := Form.size_le_sizeAll h
  simp only [size, Form.size]
  omega

variable {n : Nat} {t t' : Task} {s s' : State}

lemma measure_lt_of_depth (h : s'.depth = s.depth + 1) (free : s.depth < n) :
    t'.measure n s' < t.measure n s := by
  refine Prod.Lex.toLex_lt_toLex.mpr (.inl ?_)
  change n - s'.depth < n - s.depth
  omega

lemma measure_lt_of_rank (h : s'.depth = s.depth) (hrank : t'.rank < t.rank) :
    t'.measure n s' < t.measure n s :=
  Prod.Lex.toLex_lt_toLex.mpr
    (.inr ⟨by rw [h], Prod.Lex.toLex_lt_toLex.mpr (.inl hrank)⟩)

lemma measure_lt_of_size (h : s'.depth = s.depth) (hrank : t'.rank = t.rank)
    (hsize : t'.size < t.size) : t'.measure n s' < t.measure n s :=
  Prod.Lex.toLex_lt_toLex.mpr
    (.inr ⟨by rw [h], Prod.Lex.toLex_lt_toLex.mpr (.inr ⟨hrank, hsize⟩)⟩)

end Task

variable [Machine]

/-- Under a limit, whatever a task starts has a smaller measure. -/
theorem Starts.measure_lt {scoping : Scoping} {n : Nat} {t t' : Task} {s s' : State}
    (h : Starts ⟨scoping, some n⟩ t s t' s') : t'.measure n s' < t.measure n s := by
  have hsame {s u : State} {site : Site} {form : Form} {value : Value}
      (h : (Task.eval site form).Ends ⟨scoping, some n⟩ s (.ok value u)) : u.depth = s.depth :=
    h.depth_eq
  have heach {s u : State} {site : Site} {forms : List Form} {values : List Value}
      (h : Settles (fun k => each (eval ⟨scoping, some n⟩ k site) forms) s (.ok values u)) :
      u.depth = s.depth :=
    h.depth_eq_of_each fun k => (respected_depth.keeps _ k).1 site
  cases h with
  | condition shape =>
    cases Shape.written_of_ofList shape
    exact Task.measure_lt_of_size rfl rfl (Task.size_lt_of_mem (by simp))
  | consequent shape tested =>
    cases Shape.written_of_ofList shape
    exact Task.measure_lt_of_size (hsame tested) rfl (Task.size_lt_of_mem (by simp))
  | alternative shape tested =>
    cases Shape.written_of_ofList shape
    exact Task.measure_lt_of_size (hsame tested) rfl (Task.size_lt_of_mem (by simp))
  | defined shape =>
    cases Shape.written_of_ofList shape
    exact Task.measure_lt_of_size rfl rfl (Task.size_lt_of_mem (by simp))
  | sequence shape =>
    cases Shape.written_of_ofList shape
    refine Task.measure_lt_of_size rfl rfl ?_
    simp only [Task.size, Form.size, Form.sizeAll]
    omega
  | @member site before form after s values u done =>
    refine Task.measure_lt_of_size (heach done) rfl ?_
    have hle : form.size ≤ Form.sizeAll (before ++ form :: after) :=
      Form.size_le_sizeAll (by simp)
    simp only [Task.size]
    omega
  | head shape =>
    cases Shape.written_of_ofList shape
    exact Task.measure_lt_of_size rfl rfl (Task.size_lt_of_mem (by simp))
  | argument shape called proc done =>
    cases Shape.written_of_ofList shape
    exact Task.measure_lt_of_size ((heach done).trans (hsame called)) rfl
      (Task.size_lt_of_mem (by simp))
  | callee shape called proc done =>
    exact Task.measure_lt_of_rank ((heach done).trans (hsame called)) Nat.zero_lt_one
  | body count free =>
    exact Task.measure_lt_of_depth rfl ((Config.reached?_eq_none_iff rfl).mp free)
  | applied proc =>
    refine Task.measure_lt_of_size rfl rfl ?_
    simp only [Task.size, Value.size, Value.sizeAll]
    omega
  | mapped proc rows columns done =>
    refine Task.measure_lt_of_size
      (done.depth_eq_of_each fun k => (respected_depth.keeps _ k).2 _ _) rfl ?_
    have hcolumn := Lists.sizeAll_column_le (columns ▸ List.mem_append_cons_self)
    have hrows := Lists.sum_sizeAll_rows_le rows
    simp only [Task.size, Value.size, Value.sizeAll]
    omega

/-! ## Evaluations end -/

/-- Under a limit, every task ends, from every state. -/
theorem Task.exists_ends_of_limit (scoping : Scoping) (n : Nat) (t : Task) (s : State) :
    ∃ o, t.Ends ⟨scoping, some n⟩ s o := by
  induction h : t.measure n s using WellFoundedLT.induction generalizing t s with
  | ind m ih =>
    subst h
    exact exists_ends t s fun t' s' hstarts => ih _ hstarts.measure_lt t' s' rfl

/-- Under a limit of `n` calls in progress, the evaluation of a form, the evaluation of several
forms in order, the call of a value and the call of a primitive procedure all end: there is an
outcome that every bound gives that is large enough. -/
theorem limited_evaluation_ends (scoping : Scoping) (n : Nat) (s : State) :
    (∀ site form, ∃ o, Settles (fun k => eval ⟨scoping, some n⟩ k site form) s o) ∧
    (∀ site forms, ∃ o,
      Settles (fun k => .sequence (eval ⟨scoping, some n⟩ k site) .nil forms) s o) ∧
    (∀ env callee args, ∃ o,
      Settles (fun k => call ⟨scoping, some n⟩ k env callee args) s o) ∧
    (∀ env p args, ∃ o,
      Settles (fun k => callPrimitive (call ⟨scoping, some n⟩ k) env p args) s o) := by
  have h := fun t => Task.exists_ends_of_limit scoping n t s
  refine ⟨fun site form => h (.eval site form), fun site forms => h (.sequence site forms),
    fun env callee args => h (.call env callee args), fun env p args => ?_⟩
  obtain ⟨o, ho⟩ := h (.call env (.primitive p) args)
  exact ⟨o, Task.ends_call_iff.mp ho⟩

end SmallLisp
