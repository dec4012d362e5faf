import Mathlib
import SmallLisp.Form.Shape
import SmallLisp.Proofs.Form.Leaves

/-!
# Which lists have which shape

`Shape.ofList` decides what a list means.  Here it is read backwards: each shape comes from lists
of one form only, given by `Shape.Written`.  The parts of a program that are evaluated, and the
`lambda` forms among them, are read off the shapes.
-/

namespace SmallLisp

namespace SpecialForm

lemma ofName?_eq_some {name : String} {special : SpecialForm} (h : ofName? name = some special) :
    name = special.name := by
  have hname : (special.name == name) = true :=
    List.find?_some (p := fun s : SpecialForm => s.name == name) h
  exact (eq_of_beq hname).symm

end SpecialForm

namespace Shape

/-- How a list is written whose shape this is. -/
inductive Written : List Form → Shape → Prop
  | lambda {at₁ at₂ : Span} {params : List Form} {names : List String} {body : Form}
      (distinct : paramNames [] params = .ok names) :
      Written [.symbol "lambda" at₁, .list params at₂, body] (.lambda names body)
  | conditional {at₁ : Span} {condition consequent : Form} {alternative : Option Form} :
      Written (.symbol "if" at₁ :: condition :: consequent :: alternative.toList)
        (.conditional condition consequent alternative)
  | define {at₁ at₂ : Span} {name : String} {value : Form} :
      Written [.symbol "define" at₁, .symbol name at₂, value] (.define name value)
  | sequence {at₁ : Span} {forms : List Form} :
      Written (.symbol "begin" at₁ :: forms) (.sequence forms)
  | call {head : Form} {args : List Form} (plain : head.symbol?.bind SpecialForm.ofName? = none) :
      Written (head :: args) (.call head args)

/-- The forms that are evaluated where the list itself is evaluated. -/
def evaluated : Shape → List Form
  | lambda _ _ => []
  | conditional condition consequent alternative => condition :: consequent :: alternative.toList
  | define _ value => [value]
  | sequence forms => forms
  | call head args => head :: args

lemma written_of_ofParts {span place : Span} {special : SpecialForm} {rest : List Form}
    {shape : Shape} (h : ofParts span special rest = .ok shape) :
    Written (.symbol special.name place :: rest) shape := by
  unfold ofParts at h
  split at h
  · next params _ body =>
    cases hp : paramNames [] params with
    | error e => rw [hp] at h; cases h
    | ok names => rw [hp] at h; cases h; exact .lambda hp
  · cases h
  · cases h
  · cases h
    exact @Written.conditional _ _ _ none
  · cases h
    exact @Written.conditional _ _ _ (some _)
  · cases h
  · cases h
    exact .define
  · cases h
  · cases h
  · cases h
    exact .sequence

/-- A list has a shape only if it is written that way. -/
theorem written_of_ofList {span : Span} {items : List Form} {shape : Shape}
    (h : ofList span items = .ok shape) : Written items shape := by
  cases items with
  | nil => cases h
  | cons head rest =>
    simp only [ofList] at h
    cases hs : head.symbol?.bind SpecialForm.ofName? with
    | none => rw [hs] at h; cases h; exact .call hs
    | some special =>
      rw [hs] at h
      obtain ⟨name, hname, hspecial⟩ := Option.bind_eq_some_iff.mp hs
      cases head with
      | symbol name' place =>
        cases hname
        rw [SpecialForm.ofName?_eq_some hspecial]
        exact written_of_ofParts h
      | _ => cases hname

/-- A parameter that cannot be one is found at its own place. -/
lemma exists_param_of_error {before : List String} {params : List Form} {what : Malformation}
    {place : Span} (h : paramNames before params = .error (what, place)) :
    ∃ param ∈ params, param.span = place := by
  fun_induction paramNames before params with
  | case1 => cases h
  | case2 before name span rest hmem =>
    cases h
    exact ⟨_, List.mem_cons_self, rfl⟩
  | case3 before name span rest hmem ih =>
    obtain ⟨param, hparam, hspan⟩ := ih h
    exact ⟨param, List.mem_cons_of_mem _ hparam, hspan⟩
  | case4 before form rest hform =>
    cases h
    exact ⟨form, List.mem_cons_self, rfl⟩

/-- A malformed list is found at its own place or at that of one of its parts. -/
theorem exists_node_of_error {span place : Span} {items : List Form} {what : Malformation}
    (h : ofList span items = .error (what, place)) :
    ∃ node ∈ (Form.list items span).nodes, node.span = place := by
  have hself (h : span = place) : ∃ node ∈ (Form.list items span).nodes, node.span = place :=
    ⟨_, Form.mem_nodes_self _, h⟩
  have hitem {item : Form} (hitem : item ∈ items) (h : item.span = place) :
      ∃ node ∈ (Form.list items span).nodes, node.span = place := by
    refine ⟨item, ?_, h⟩
    rw [Form.nodes]
    exact List.mem_cons_of_mem _ (Form.mem_nodesAll.mpr ⟨item, hitem, Form.mem_nodes_self item⟩)
  unfold ofList at h
  split at h
  · cases h
    exact hself rfl
  · next head rest =>
    split at h
    · next special hspecial =>
      unfold ofParts at h
      split at h
      · next params at₂ body =>
        cases hparams : paramNames [] params with
        | ok names =>
          rw [hparams] at h
          cases h
        | error e =>
          rw [hparams] at h
          cases h
          obtain ⟨param, hparam, hplace⟩ := exists_param_of_error hparams
          refine ⟨param, ?_, hplace⟩
          have hnode : param ∈ Form.nodesAll params :=
            Form.mem_nodesAll.mpr ⟨param, hparam, Form.mem_nodes_self param⟩
          simp [Form.nodes, Form.nodesAll, hnode]
      · cases h
        exact hitem (by simp) rfl
      · cases h
        exact hself rfl
      · cases h
      · cases h
      · cases h
        exact hself rfl
      · cases h
      · cases h
        exact hitem (by simp) rfl
      · cases h
        exact hself rfl
      · cases h
    · cases h

end Shape

/-! ## What is evaluated of a program -/

namespace Form

/-- How many items at the front of a list are not evaluated: the symbol that introduces a special
form, and the parameters of a `lambda` form. -/
def introduction : List Form → Nat
  | [] => 0
  | head :: _ =>
    match head.symbol?.bind SpecialForm.ofName? with
    | some .lambda => 2
    | some _ => 1
    | none => 0

/-- The items of a list behind its introduction. -/
def operands (items : List Form) : List Form := items.drop (introduction items)

lemma operands_subset (items : List Form) : operands items ⊆ items := List.drop_subset _ _

/-- The parts of a call are its operands. -/
lemma operands_of_plain {head : Form} {args : List Form}
    (plain : head.symbol?.bind SpecialForm.ofName? = none) :
    operands (head :: args) = head :: args := by
  simp [operands, introduction, plain]

mutual

/-- The form and the operands inside it. -/
def parts : Form → List Form
  | int value span => [int value span]
  | float value span => [float value span]
  | str text span => [str text span]
  | symbol name span => [symbol name span]
  | list items span => list items span :: partsFrom (introduction items) items

/-- The parts of all but the first `n` of several forms. -/
def partsFrom : Nat → List Form → List Form
  | _, [] => []
  | 0, form :: forms => form.parts ++ partsFrom 0 forms
  | n + 1, _ :: forms => partsFrom n forms

end

/-- The parts of a program. -/
abbrev partsAll (program : List Form) : List Form := partsFrom 0 program

lemma mem_parts_self (form : Form) : form ∈ form.parts := by
  cases form <;> simp [parts]

lemma parts_of_isList_eq_false {form : Form} (h : form.isList = false) : form.parts = [form] := by
  cases form with
  | list => cases h
  | _ => simp [parts]

lemma mem_partsFrom {part : Form} {n : Nat} {forms : List Form} :
    part ∈ partsFrom n forms ↔ ∃ form ∈ forms.drop n, part ∈ form.parts := by
  induction forms generalizing n with
  | nil => simp [partsFrom]
  | cons form forms ih =>
    cases n with
    | zero => simp [partsFrom, ih]
    | succ n => simp [partsFrom, ih]

/-- The parts of a part are parts. -/
lemma parts_subset_partsFrom {forms : List Form} {n : Nat} {form : Form}
    (h : form ∈ partsFrom n forms) : form.parts ⊆ partsFrom n forms := by
  induction forms using forms_induction generalizing n with
  | nil => simp [partsFrom] at h
  | leaf leaf fs hleaf ih =>
    cases n with
    | zero =>
      rw [partsFrom, parts_of_isList_eq_false hleaf] at h ⊢
      rcases List.mem_cons.mp h with rfl | h
      · rw [parts_of_isList_eq_false hleaf]
        simp
      · exact List.subset_cons_of_subset _ (ih h)
    | succ n =>
      rw [partsFrom] at h ⊢
      exact ih h
  | list items span fs ihItems ihRest =>
    cases n with
    | zero =>
      rw [partsFrom, parts] at h ⊢
      rcases List.mem_append.mp h with h | h
      · refine List.subset_append_of_subset_left _ ?_
        rcases List.mem_cons.mp h with rfl | h
        · rw [parts]
          exact List.Subset.refl _
        · exact List.subset_cons_of_subset _ (ihItems h)
      · exact List.subset_append_of_subset_right _ (ihRest h)
    | succ n =>
      rw [partsFrom] at h ⊢
      exact ihRest h

/-- The operands of a part are parts. -/
lemma mem_partsAll_of_operand {program items : List Form} {span : Span} {form : Form}
    (h : .list items span ∈ partsAll program) (hform : form ∈ operands items) :
    form ∈ partsAll program := by
  apply parts_subset_partsFrom h
  rw [parts]
  exact List.mem_cons_of_mem _ (mem_partsFrom.mpr ⟨form, hform, mem_parts_self form⟩)

lemma partsFrom_subset_nodesAll (forms : List Form) (n : Nat) :
    partsFrom n forms ⊆ nodesAll forms := by
  induction forms using forms_induction generalizing n with
  | nil => simp [partsFrom]
  | leaf form fs hleaf ih =>
    cases n with
    | zero =>
      rw [partsFrom, nodesAll, parts_of_isList_eq_false hleaf, nodes_of_isList_eq_false hleaf]
      exact List.cons_subset_cons _ (ih 0)
    | succ n => exact List.subset_append_of_subset_right _ (ih n)
  | list items span fs ihItems ihRest =>
    cases n with
    | zero =>
      rw [partsFrom, nodesAll, parts, nodes]
      exact List.append_subset.mpr
        ⟨List.subset_append_of_subset_left _ (List.cons_subset_cons _ (ihItems _)),
          List.subset_append_of_subset_right _ (ihRest 0)⟩
    | succ n => exact List.subset_append_of_subset_right _ (ihRest n)

/-! ### The `lambda` forms of a program -/

/-- The parameters and the body, if the form is a `lambda` form. -/
def lambda? : Form → Option (List String × Form)
  | list items span =>
    match Shape.ofList span items with
    | .ok (.lambda params body) => some (params, body)
    | _ => none
  | int .. | float .. | str .. | symbol .. => none

/-- The parameters and the bodies of the `lambda` forms among the parts of a program. -/
def lambdas (program : List Form) : List (List String × Form) :=
  (partsAll program).filterMap lambda?

lemma mem_lambdas {program items : List Form} {span : Span} {params : List String} {body : Form}
    (h : .list items span ∈ partsAll program)
    (hshape : Shape.ofList span items = .ok (.lambda params body)) :
    (params, body) ∈ lambdas program :=
  List.mem_filterMap.mpr ⟨_, h, by simp [lambda?, hshape]⟩

/-- The body of a `lambda` form is a part of the program. -/
lemma body_mem_of_mem_lambdas {program : List Form} {params : List String} {body : Form}
    (h : (params, body) ∈ lambdas program) : body ∈ partsAll program := by
  obtain ⟨form, hform, hlambda⟩ := List.mem_filterMap.mp h
  cases form with
  | list items span =>
    simp only [lambda?] at hlambda
    split at hlambda
    · next hshape =>
      cases hlambda
      cases Shape.written_of_ofList hshape with
      | @lambda at₁ at₂ params =>
        have hoperands : operands [.symbol "lambda" at₁, .list params at₂, body] = [body] := rfl
        exact mem_partsAll_of_operand hform (by simp [hoperands])
    · cases hlambda
  | _ => cases hlambda

end Form

end SmallLisp
