import Mathlib
import SmallLisp.Proofs.Form.Shape

/-!
# Lists of the same shape

The shape of a list does not depend on all of its items, only on which of them are symbols and on
what the list of parameters looks like.  `Form.Like` compares two forms as far as that goes, up to a
renaming of the symbols and a relation between places.  If the items of two lists are alike in this
sense, then so are their shapes, or the same is wrong with both (`Shape.ofList_like`).
-/

namespace SmallLisp

/-- Both readings of a shape succeed and are related, or they find the same wrong with it. -/
inductive Shape.Agree {α β : Type} (P : Span → Span → Prop) (R : α → β → Prop) :
    Except (Malformation × Span) α → Except (Malformation × Span) β → Prop
  | ok {a : α} {b : β} (h : R a b) : Agree P R (.ok a) (.ok b)
  | error (what : Malformation) {a b : Span} (place : P a b) :
      Agree P R (.error (what, a)) (.error (what, b))

variable {ρ : String → String} {P : Span → Span → Prop}

/-- What is read is related in another way too, if that follows for all that is read. -/
lemma Shape.Agree.imp {α β : Type} {R S : α → β → Prop} {x : Except (Malformation × Span) α}
    {y : Except (Malformation × Span) β} (h : Agree P R x y)
    (hR : ∀ a b, x = .ok a → R a b → S a b) : Agree P S x y := by
  cases h with
  | ok h => exact .ok (hR _ _ rfl h)
  | error what place => exact .error what place

/-- The names are those of the other list, renamed. -/
def Renames (ρ : String → String) (names names' : List String) : Prop := names' = names.map ρ

/-- The forms are the same to a list whose items they are: literals of the same kind, symbols of
which one is the other one renamed, or lists that are the same as lists of parameters. -/
inductive Form.Like (ρ : String → String) (P : Span → Span → Prop) : Form → Form → Prop
  | int (n : Int64) {a b : Span} (place : P a b) : Like ρ P (.int n a) (.int n b)
  | float (x : Double) {a b : Span} (place : P a b) : Like ρ P (.float x a) (.float x b)
  | str (text : String) {a b : Span} (place : P a b) : Like ρ P (.str text a) (.str text b)
  | symbol (name : String) {a b : Span} (place : P a b) :
      Like ρ P (.symbol name a) (.symbol (ρ name) b)
  | list {items items' : List Form} {a b : Span} (place : P a b)
      (params : Shape.Agree P (Renames ρ) (Shape.paramNames [] items)
        (Shape.paramNames [] items')) : Like ρ P (.list items a) (.list items' b)

namespace Form.Like

variable {form form' : Form}

lemma symbol?_eq (h : form.Like ρ P form') : form'.symbol? = form.symbol?.map ρ := by
  cases h <;> rfl

end Form.Like

namespace Shape

/-- The shapes ask for the same, with renamed names and related parts. -/
inductive Like (ρ : String → String) (F : Form → Form → Prop) : Shape → Shape → Prop
  | lambda (params : List String) {body body' : Form} (h : F body body') :
      Like ρ F (.lambda params body) (.lambda (params.map ρ) body')
  | conditional {test test' left left' : Form} {right right' : Option Form}
      (condition : F test test') (consequent : F left left')
      (alternative : Option.Rel F right right') :
      Like ρ F (.conditional test left right) (.conditional test' left' right')
  | define (name : String) {form form' : Form} (value : F form form') :
      Like ρ F (.define name form) (.define (ρ name) form')
  | sequence {forms forms' : List Form} (members : List.Forall₂ F forms forms') :
      Like ρ F (.sequence forms) (.sequence forms')
  | call {f f' : Form} {args args' : List Form} (head : F f f')
      (arguments : List.Forall₂ F args args') : Like ρ F (.call f args) (.call f' args')

/-- Parameters that are renamed without confusing them have renamed names. -/
lemma paramNames_like (hρ : Function.Injective ρ) {params params' : List Form}
    (h : List.Forall₂ (fun form form' => form'.symbol? = form.symbol?.map ρ ∧
      P form.span form'.span) params params') (before : List String) :
    Agree P (Renames ρ) (paramNames before params) (paramNames (before.map ρ) params') := by
  induction h generalizing before with
  | nil => exact .ok rfl
  | @cons form form' params params' hform _ ih =>
    obtain ⟨hsymbol, hplace⟩ := hform
    cases form with
    | symbol name span =>
      cases form' with
      | symbol name' span' =>
        obtain rfl := Option.some.inj hsymbol
        have hmem : ρ name ∈ before.map ρ ↔ name ∈ before := List.mem_map_of_injective hρ
        simp only [paramNames, hmem]
        split
        · exact .error _ hplace
        · simpa using ih (before ++ [name])
      | _ => cases hsymbol
    | _ =>
      cases form' with
      | symbol => cases hsymbol
      | _ => exact .error _ hplace

variable {F : Form → Form → Prop} {items items' : List Form} {a b : Span}

lemma lambda_like (hF : ∀ {form form'}, F form form' → form.Like ρ P form') (hspan : P a b)
    (h : List.Forall₂ F items items') :
    Agree P (Like ρ F) (ofParts a .lambda items) (ofParts b .lambda items') := by
  rcases h with _ | ⟨hparams, _ | ⟨hbody, _ | ⟨hmore, h⟩⟩⟩
  · exact .error _ hspan
  · simpa only [ofParts] using .error _ hspan
  · cases hF hparams with
    | @list params params' _ _ place agree =>
      simp only [ofParts]
      generalize paramNames [] params = names, paramNames [] params' = names' at agree
      cases agree with
      | ok h =>
        obtain rfl := h
        exact .ok (.lambda _ hbody)
      | error what place => exact .error what place
    | _ => exact .error _ ‹_›
  · simpa only [ofParts] using .error _ hspan

lemma conditional_like (hspan : P a b) (h : List.Forall₂ F items items') :
    Agree P (Like ρ F) (ofParts a .conditional items) (ofParts b .conditional items') := by
  rcases h with _ | ⟨h₁, _ | ⟨h₂, _ | ⟨h₃, _ | ⟨h₄, h⟩⟩⟩⟩
  · exact .error _ hspan
  · exact .error _ hspan
  · exact .ok (.conditional h₁ h₂ .none)
  · exact .ok (.conditional h₁ h₂ (.some h₃))
  · exact .error _ hspan

lemma define_like (hF : ∀ {form form'}, F form form' → form.Like ρ P form') (hspan : P a b)
    (h : List.Forall₂ F items items') :
    Agree P (Like ρ F) (ofParts a .define items) (ofParts b .define items') := by
  rcases h with _ | ⟨htarget, _ | ⟨hvalue, _ | ⟨hmore, h⟩⟩⟩
  · exact .error _ hspan
  · simpa only [ofParts] using .error _ hspan
  · cases hF htarget with
    | symbol name => exact .ok (.define name hvalue)
    | _ => exact .error _ ‹_›
  · simpa only [ofParts] using .error _ hspan

/-- Lists of items that are alike have shapes that are alike. -/
theorem ofList_like (hF : ∀ {form form'}, F form form' → form.Like ρ P form')
    (hspecial : ∀ name, SpecialForm.ofName? (ρ name) = SpecialForm.ofName? name) (hspan : P a b)
    (h : List.Forall₂ F items items') : Agree P (Like ρ F) (ofList a items) (ofList b items') := by
  cases h with
  | nil => exact .error _ hspan
  | @cons head head' rest rest' hhead hrest =>
    have hname : head'.symbol?.bind SpecialForm.ofName? =
        head.symbol?.bind SpecialForm.ofName? := by
      rw [(hF hhead).symbol?_eq]
      cases head.symbol? with
      | none => rfl
      | some name => exact hspecial name
    simp only [ofList, hname]
    cases head.symbol?.bind SpecialForm.ofName? with
    | none => exact .ok (.call hhead hrest)
    | some special =>
      cases special with
      | lambda => exact lambda_like hF hspan hrest
      | conditional => exact conditional_like hspan hrest
      | define => exact define_like hF hspan hrest
      | sequence => exact .ok (.sequence hrest)

end Shape

end SmallLisp
