import Mathlib
import SmallLisp.Proofs.Form.Like

/-!
# Renaming a parameter

To rename a parameter `p` of a `lambda` form, it is replaced in the list of parameters and in the
body, but not in the forms of the body that have a parameter `p` of their own (`Form.rename`).  One
such form of a program is renamed by `Form.RenamesParam`.

While the program runs, every part of it is either outside of the renamed form, and then `p` stays
as it is, or inside, and then `p` is replaced (`Form.Renamed`).  The items of a form are on the same
side as the form, except where one enters or leaves the scope of the parameter, and that is at forms
that have a parameter `p` only (`Form.RenamedParts`).
-/

namespace SmallLisp

namespace Form

/-! ## Renaming -/

/-- Whether the items are those of a `lambda` form that has this parameter. -/
def binds (p : String) : List Form → Bool
  | .symbol "lambda" _ :: .list params _ :: _ => params.any (·.symbol? == some p)
  | _ => false

mutual

/-- The form with `q` in place of the name `p` wherever that is not the parameter of a `lambda` form
inside. -/
def rename (p q : String) : Form → Form
  | int value span => int value span
  | float value span => float value span
  | str text span => str text span
  | symbol name span => symbol (if name = p then q else name) span
  | list items span => list (if binds p items then items else renameAll p q items) span

/-- Several forms with `q` in place of `p`. -/
def renameAll (p q : String) : List Form → List Form
  | [] => []
  | form :: forms => form.rename p q :: renameAll p q forms

end

/-- The forms are the same, except that in one `lambda` form among them or inside of them the
parameter `p` is renamed to `q`. -/
inductive RenamesParam (p q : String) : List Form → List Form → Prop
  | here {at₁ at₂ span : Span} {params body forms : List Form}
      (param : ∃ span, .symbol p span ∈ params) :
      RenamesParam p q (.list (.symbol "lambda" at₁ :: .list params at₂ :: body) span :: forms)
        (.list (.symbol "lambda" at₁ :: .list (renameAll p q params) at₂ :: renameAll p q body)
          span :: forms)
  | inside {items items' forms : List Form} {span : Span} (h : RenamesParam p q items items') :
      RenamesParam p q (.list items span :: forms) (.list items' span :: forms)
  | later {form : Form} {forms forms' : List Form} (h : RenamesParam p q forms forms') :
      RenamesParam p q (form :: forms) (form :: forms')

/-! ## Renamed code -/

/-- The name does not occur in the form. -/
def Lacks (q : String) (form : Form) : Prop := ∀ span, .symbol q span ∉ form.nodes

/-- The second form stands in the renamed program where the first one stands in the program: it is
the same, or it has the renamed form as a part, or it is inside of that. -/
inductive Renamed (p q : String) : Bool → Form → Form → Prop
  | same {form : Form} (fresh : form.Lacks q) : Renamed p q false form form
  | around {form form' : Form} (fresh : form.Lacks q) (h : RenamesParam p q [form] [form']) :
      Renamed p q false form form'
  | inside {form : Form} (fresh : form.Lacks q) : Renamed p q true form (form.rename p q)

end Form

/-- What a name becomes: inside of the renamed form the two names are exchanged, which is to rename
`p` because `q` does not occur. -/
def newName (p q : String) (inside : Bool) : String → String :=
  if inside then Equiv.swap p q else id

/-- The renamed forms are made of renamed parts. -/
inductive Form.RenamedParts (p q : String) : Bool → Form → Form → Prop
  | int {inside : Bool} (n : Int64) (span : Span) :
      RenamedParts p q inside (.int n span) (.int n span)
  | float {inside : Bool} (x : Double) (span : Span) :
      RenamedParts p q inside (.float x span) (.float x span)
  | str {inside : Bool} (text : String) (span : Span) :
      RenamedParts p q inside (.str text span) (.str text span)
  | symbol {inside : Bool} {name : String} (span : Span) (fresh : name ≠ q) :
      RenamedParts p q inside (.symbol name span) (.symbol (newName p q inside name) span)
  | members {outer inner : Bool} {items items' : List Form} (span : Span)
      (scope : inner = outer ∨ binds p items)
      (members : List.Forall₂ (Renamed p q inner) items items') :
      RenamedParts p q outer (.list items span) (.list items' span)
  | scope {at₁ at₂ : Span} {params body : List Form} (span : Span)
      (param : ∃ span, .symbol p span ∈ params) :
      RenamedParts p q false (.list (.symbol "lambda" at₁ :: .list params at₂ :: body) span)
        (.list (.symbol "lambda" at₁ :: .list (renameAll p q params) at₂ :: renameAll p q body)
          span)

/-! ## Names -/

section Names

variable {p q : String}

lemma newName_injective (inside : Bool) : Function.Injective (newName p q inside) := by
  cases inside with
  | true => exact (Equiv.swap p q).injective
  | false => exact Function.injective_id

/-- Only `p` is renamed, and `q`, which does not occur. -/
lemma newName_of_ne {name : String} (hp : name ≠ p) (hq : name ≠ q) (inside : Bool) :
    newName p q inside name = name := by
  cases inside with
  | true => exact Equiv.swap_apply_of_ne_of_ne hp hq
  | false => rfl

lemma newName_true_of_ne {name : String} (hq : name ≠ q) :
    newName p q true name = if name = p then q else name := by
  split
  · next hname =>
    subst hname
    exact Equiv.swap_apply_left name q
  · next hname => exact newName_of_ne hname hq true

/-- A renaming between names that introduce no construct keeps all constructs. -/
lemma ofName?_newName (hp : SpecialForm.ofName? p = none) (hq : SpecialForm.ofName? q = none)
    (inside : Bool) (name : String) :
    SpecialForm.ofName? (newName p q inside name) = SpecialForm.ofName? name := by
  by_cases hnamep : name = p
  · subst hnamep
    cases inside with
    | true => rw [newName, if_pos rfl, Equiv.swap_apply_left, hp, hq]
    | false => rfl
  · by_cases hnameq : name = q
    · subst hnameq
      cases inside with
      | true => rw [newName, if_pos rfl, Equiv.swap_apply_right, hp, hq]
      | false => rfl
    · rw [newName_of_ne hnamep hnameq]

end Names

/-- The names of parameters are those of the symbols. -/
lemma Shape.mem_paramNames_iff {before names : List String} {params : List Form} {name : String}
    (h : paramNames before params = .ok names) :
    name ∈ names ↔ name ∈ before ∨ ∃ span, .symbol name span ∈ params := by
  fun_induction paramNames before params with
  | case1 before =>
    cases h
    simp
  | case2 => cases h
  | case3 before first span rest hfirst ih =>
    rw [ih h, List.mem_append, List.mem_singleton, or_assoc]
    simp only [List.mem_cons, Form.symbol.injEq, exists_or, exists_and_left, exists_eq, and_true]
  | case4 => cases h

namespace Form

variable {p q : String}

/-! ## Where the name does not occur -/

lemma lacks_symbol_iff {name : String} {span : Span} :
    (symbol name span).Lacks q ↔ name ≠ q := by
  simp [Lacks, nodes, eq_comm]

lemma lacks_list_iff {items : List Form} {span : Span} :
    (list items span).Lacks q ↔ ∀ item ∈ items, item.Lacks q := by
  simp only [Lacks, nodes, List.mem_cons, mem_nodesAll, reduceCtorEq, false_or, not_exists,
    not_and]
  exact ⟨fun h item hitem span => h span item hitem, fun h span item hitem => h item hitem span⟩

/-- A name that does not occur is no parameter. -/
lemma Lacks.not_mem_params {items : List Form} {span : Span} {names : List String} {body : Form}
    (h : (list items span).Lacks q) (hshape : Shape.ofList span items = .ok (.lambda names body)) :
    q ∉ names := by
  intro hmem
  cases Shape.written_of_ofList hshape with
  | @lambda at₁ at₂ params names body distinct =>
    rcases (Shape.mem_paramNames_iff distinct).mp hmem with hbefore | ⟨place, hparam⟩
    · cases hbefore
    · have hparams : (list params at₂).Lacks q := lacks_list_iff.mp h _ (by simp)
      exact lacks_symbol_iff.mp (lacks_list_iff.mp hparams _ hparam) rfl

/-! ## The parts of renamed code -/

lemma Renamed.lacks {inside : Bool} {form form' : Form} (h : form.Renamed p q inside form') :
    form.Lacks q := by
  cases h <;> assumption

lemma renamed_self {forms : List Form} (fresh : ∀ form ∈ forms, form.Lacks q) :
    List.Forall₂ (Renamed p q false) forms forms :=
  List.forall₂_same.mpr fun form hform => .same (fresh form hform)

lemma renamed_renameAll {forms : List Form} (fresh : ∀ form ∈ forms, form.Lacks q) :
    List.Forall₂ (Renamed p q true) forms (renameAll p q forms) := by
  induction forms with
  | nil => exact .nil
  | cons form forms ih =>
    exact .cons (.inside (fresh form List.mem_cons_self))
      (ih fun form hform => fresh form (List.mem_cons_of_mem _ hform))

/-- A program in which a parameter is renamed is renamed code. -/
lemma RenamesParam.renamed {forms forms' : List Form} (h : RenamesParam p q forms forms')
    (fresh : ∀ form ∈ forms, form.Lacks q) : List.Forall₂ (Renamed p q false) forms forms' := by
  induction h with
  | here param =>
    rw [List.forall_mem_cons] at fresh
    exact .cons (.around fresh.1 (.here param)) (renamed_self fresh.2)
  | inside h ih =>
    rw [List.forall_mem_cons] at fresh
    exact .cons (.around fresh.1 (.inside h)) (renamed_self fresh.2)
  | later h ih =>
    rw [List.forall_mem_cons] at fresh
    exact .cons (.same fresh.1) (ih fresh.2)

/-- The parts of renamed code are renamed code. -/
lemma Renamed.parts {inside : Bool} {form form' : Form} (h : form.Renamed p q inside form') :
    form.RenamedParts p q inside form' := by
  cases h with
  | same fresh =>
    cases form with
    | int n span => exact .int n span
    | float x span => exact .float x span
    | str text span => exact .str text span
    | symbol name span => exact .symbol span (lacks_symbol_iff.mp fresh)
    | list items span =>
      exact .members span (.inl rfl) (renamed_self (lacks_list_iff.mp fresh))
  | around fresh h =>
    cases h with
    | here param => exact .scope _ param
    | inside h => exact .members _ (.inl rfl) (h.renamed (lacks_list_iff.mp fresh))
    | later h => cases h
  | inside fresh =>
    cases form with
    | int n span => exact .int n span
    | float x span => exact .float x span
    | str text span => exact .str text span
    | symbol name span =>
      have hname := lacks_symbol_iff.mp fresh
      rw [rename, ← newName_true_of_ne hname]
      exact .symbol span hname
    | list items span =>
      rw [rename]
      split
      · next hbinds =>
        exact .members span (.inr hbinds) (renamed_self (lacks_list_iff.mp fresh))
      · exact .members span (.inl rfl) (renamed_renameAll (lacks_list_iff.mp fresh))

/-! ## What the list sees in which renamed code stands -/

lemma exists_lambda_of_binds {items : List Form} (h : binds p items) :
    ∃ at₁ params at₂ body, items = .symbol "lambda" at₁ :: .list params at₂ :: body ∧
      ∃ span, .symbol p span ∈ params := by
  unfold binds at h
  split at h
  · next at₁ params at₂ body =>
    obtain ⟨param, hparam, hname⟩ := List.any_eq_true.mp h
    cases param with
    | symbol name span =>
      obtain rfl : name = p := by simpa [symbol?] using hname
      exact ⟨at₁, params, at₂, body, rfl, span, hparam⟩
    | _ => cases hname
  · cases h

lemma binds_of_param {at₁ at₂ : Span} {params body : List Form}
    (param : ∃ span, .symbol p span ∈ params) :
    binds p (.symbol "lambda" at₁ :: .list params at₂ :: body) := by
  obtain ⟨span, hparam⟩ := param
  exact List.any_eq_true.mpr ⟨_, hparam, by simp [symbol?]⟩

/-- If a list that has such a form has a shape, then it makes a closure with that parameter. -/
lemma exists_shape_of_binds {items : List Form} {span : Span} {shape : Shape} (h : binds p items)
    (hshape : Shape.ofList span items = .ok shape) :
    ∃ params body, shape = .lambda params body ∧ p ∈ params := by
  obtain ⟨at₁, params, at₂, body, rfl, param⟩ := exists_lambda_of_binds h
  have hwritten := Shape.written_of_ofList hshape
  generalize hitems : Form.symbol "lambda" at₁ :: .list params at₂ :: body = items at hwritten
  cases hwritten with
  | lambda distinct =>
    cases hitems
    exact ⟨_, _, rfl, (Shape.mem_paramNames_iff distinct).mpr (.inr param)⟩
  | call plain =>
    cases hitems
    cases plain
  | _ => simp at hitems

namespace Renamed

variable {inside : Bool} {form form' : Form}

lemma span_eq (h : form.Renamed p q inside form') : form'.span = form.span := by
  cases h.parts <;> rfl

lemma symbol?_eq (h : form.Renamed p q inside form') :
    form'.symbol? = form.symbol?.map (newName p q inside) := by
  cases h.parts <;> rfl

/-- Renamed parameters have renamed names. -/
lemma paramNames {params params' : List Form}
    (h : List.Forall₂ (Renamed p q inside) params params') :
    Shape.Agree (fun a b => b = a) (Renames (newName p q inside)) (Shape.paramNames [] params)
      (Shape.paramNames [] params') := by
  refine Shape.paramNames_like (newName_injective _) (h.imp ?_) []
  intro param param' hparam
  exact ⟨hparam.symbol?_eq, hparam.span_eq⟩

/-- Renamed code looks the same to the list in which it stands, up to the renaming. -/
lemma like (h : form.Renamed p q inside form') :
    form.Like (newName p q inside) (fun a b => b = a) form' := by
  cases h.parts with
  | int n => exact .int n rfl
  | float x => exact .float x rfl
  | str text => exact .str text rfl
  | symbol => exact .symbol _ rfl
  | members span scope members =>
    refine .list rfl ?_
    rcases scope with rfl | hbinds
    · exact paramNames members
    · -- As a list of parameters, a `lambda` form is wrong at its own list of parameters.
      obtain ⟨at₁, params, at₂, body, rfl, -⟩ := exists_lambda_of_binds hbinds
      obtain _ | ⟨hhead, _ | ⟨hparams, -⟩⟩ := members
      cases hhead.parts with
      | symbol =>
        cases hparams.parts <;> exact .error .lambdaParam rfl
  | scope => exact .list rfl (.error .lambdaParam rfl)

end Renamed

/-- The renamed form makes a closure with renamed parameters and body. -/
lemma ofList_scope {at₁ at₂ span : Span} {params body : List Form}
    (fresh : (list params at₂).Lacks q) :
    Shape.Agree (fun a b => b = a)
      (fun shape shape' => ∃ names, ∃ form ∈ body, shape = .lambda names form ∧
        shape' = .lambda (names.map (newName p q true)) (form.rename p q))
      (Shape.ofList span (.symbol "lambda" at₁ :: .list params at₂ :: body))
      (Shape.ofList span
        (.symbol "lambda" at₁ :: .list (renameAll p q params) at₂ :: renameAll p q body)) := by
  have hnames := Renamed.paramNames (renamed_renameAll (p := p) (lacks_list_iff.mp fresh))
  rcases body with _ | ⟨form, _ | ⟨more, body⟩⟩
  · exact .error .lambdaParts rfl
  · have hlambda : SpecialForm.ofName? "lambda" = some .lambda := rfl
    simp only [Shape.ofList, symbol?, Option.bind_some, hlambda, Shape.ofParts, renameAll]
    generalize Shape.paramNames [] params = names, Shape.paramNames [] (renameAll p q params) =
      names' at hnames
    cases hnames with
    | ok h =>
      obtain rfl := h
      exact .ok ⟨_, form, List.mem_cons_self, rfl, rfl⟩
    | error what place => exact .error what place
  · exact .error .lambdaParts rfl

end Form

end SmallLisp
