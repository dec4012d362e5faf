import Mathlib
import SmallLisp.Proofs.Evaluation.Primitive

/-!
# Values that cannot be told apart

What a program can find out about a value is its kind, its number, its text and its elements, and
how it compares with other values.  All of that stays as it is if the identities in all values are
exchanged for others, one to one, and if closures are exchanged at will.

An `Exchange` says what may take the place of what, and `Value.Layer` is its effect on the outermost
layer of a value.  A relation between values that implies its own layer is `Value.Indiscernible`;
for the values that it relates, every observation has the same result.  There are three such
relations in use: values that match (`Value.Matches`), values with other numbers for their objects
(`Value.renumber`), and values that are the same and consist of certain objects only.
-/

namespace SmallLisp

/-- What may take the place of what in a value. -/
structure Exchange where
  identity : Identity → Identity → Prop
  /-- A program can compare identities. -/
  unique : ∀ {i j i' j'}, identity i j → identity i' j' → (i = i' ↔ j = j')
  closure : Closure → Closure → Prop
  /-- The texts that strings may have. -/
  text : String → Prop
  append : ∀ {s t}, text s → text t → text (s ++ t)

/-- The values are the same up to an exchange, and their elements are related. -/
inductive Value.Layer (X : Exchange) (V : Value → Value → Prop) : Value → Value → Prop
  | int (n : Int64) : Layer X V (.int n) (.int n)
  | float (x : Double) : Layer X V (.float x) (.float x)
  | str {i j : Identity} {s : String} (id : X.identity i j) (text : X.text s) :
      Layer X V (.str i s) (.str j s)
  | bool (b : Bool) : Layer X V (.bool b) (.bool b)
  | nil : Layer X V .nil .nil
  | list {i j : Identity} {vs ws : List Value} (id : X.identity i j)
      (items : List.Forall₂ V vs ws) : Layer X V (.list i vs) (.list j ws)
  | closure {i j : Identity} {c d : Closure} (id : X.identity i j) (code : X.closure c d) :
      Layer X V (.closure i c) (.closure j d)
  | primitive (p : Primitive) : Layer X V (.primitive p) (.primitive p)

/-- Related values are the same up to an exchange, and so are their elements.  Values without
identities, as they are computed from others, are related to themselves. -/
structure Value.Indiscernible (X : Exchange) (V : Value → Value → Prop) : Prop where
  layer : ∀ {a b}, V a b → Layer X V a b
  int : ∀ n, V (.int n) (.int n)
  float : ∀ x, V (.float x) (.float x)
  bool : ∀ b, V (.bool b) (.bool b)

/-- The answers are the same, with related values in them. -/
inductive Answer.Alike (X : Exchange) (V : Value → Value → Prop) : Answer → Answer → Prop
  | value {v w : Value} (h : V v w) : Alike X V (.value v) (.value w)
  | string {text : String} (h : X.text text) : Alike X V (.string text) (.string text)
  | list {vs ws : List Value} (h : List.Forall₂ V vs ws) : Alike X V (.list vs) (.list ws)

/-- Both computations have a result, and the results are related, or they find the same fault. -/
inductive Fault.Agree {α β : Type} (R : α → β → Prop) : Except Fault α → Except Fault β → Prop
  | ok {a : α} {b : β} (h : R a b) : Agree R (.ok a) (.ok b)
  | error (fault : Fault) : Agree R (.error fault) (.error fault)

namespace Fault.Agree

variable {α β γ δ : Type} {R R' : α → β → Prop} {S : γ → δ → Prop} {x : Except Fault α}
  {y : Except Fault β}

lemma mono (h : Agree R x y) (hR : ∀ a b, R a b → R' a b) : Agree R' x y := by
  cases h with
  | ok h => exact .ok (hR _ _ h)
  | error fault => exact .error fault

/-- A relation that is a function determines the second result. -/
lemma eq_map {φ : α → β} (h : Agree R x y) (hφ : ∀ a b, R a b → φ a = b) : y = x.map φ := by
  cases h with
  | ok h => rw [← hφ _ _ h]; rfl
  | error fault => rfl

lemma bind {f : α → Except Fault γ} {g : β → Except Fault δ} (h : Agree R x y)
    (hf : ∀ a b, R a b → Agree S (f a) (g b)) : Agree S (x >>= f) (y >>= g) := by
  cases h with
  | ok h => exact hf _ _ h
  | error fault => exact .error fault

lemma mapM {f : α → Except Fault γ} {g : β → Except Fault δ}
    (hf : ∀ a b, R a b → Agree S (f a) (g b)) {l : List α} {l' : List β}
    (h : List.Forall₂ R l l') : Agree (List.Forall₂ S) (l.mapM f) (l'.mapM g) := by
  induction h with
  | nil => exact .ok .nil
  | cons h _ ih =>
    rw [List.mapM_cons, List.mapM_cons]
    exact (hf _ _ h).bind fun _ _ hhead => ih.bind fun _ _ htail => .ok (.cons hhead htail)

end Fault.Agree

/-! ## Induction on values -/

/-- Induction on the values of a list and on the items of the lists among them. -/
@[elab_as_elim]
theorem Value.values_induction {motive : List Value → Prop} (nil : motive [])
    (scalar : ∀ v vs, v.items? = none → motive vs → motive (v :: vs))
    (list : ∀ id items vs, motive items → motive vs → motive (.list id items :: vs)) :
    ∀ vs, motive vs
  | [] => nil
  | .list id items :: vs =>
    list id items vs (values_induction nil scalar list items) (values_induction nil scalar list vs)
  | .int _ :: vs | .float _ :: vs | .str _ _ :: vs | .bool _ :: vs | .nil :: vs
  | .closure _ _ :: vs | .primitive _ :: vs =>
    scalar _ vs rfl (values_induction nil scalar list vs)

/-! ## What can be observed of a value -/

namespace Value.Indiscernible

variable {X : Exchange} {V : Value → Value → Prop} {a a' b b' : Value} {vs vs' ws ws' : List Value}
  (hV : Indiscernible X V)
include hV

lemma kind_eq (h : V a a') : a'.kind = a.kind := by
  cases hV.layer h <;> rfl

lemma isTruthy_eq (h : V a a') : a'.isTruthy = a.isTruthy := by
  cases hV.layer h <;> rfl

lemma isProcedure_eq (h : V a a') : a'.isProcedure = a.isProcedure := by
  cases hV.layer h <;> rfl

lemma number?_eq (h : V a a') : a'.number? = a.number? := by
  cases hV.layer h <;> rfl

lemma compare?_eq (h : V a a') (h' : V b b') : a'.compare? b' = a.compare? b := by
  cases hV.layer h <;> cases hV.layer h' <;> rfl

lemma identical_eq (h : V a a') (h' : V b b') : a'.identical b' = a.identical b := by
  have hid {i j i' j' : Identity} (hi : X.identity i i') (hj : X.identity j j') :
      (i' == j') = (i == j) := by
    rw [Bool.eq_iff_iff, beq_iff_eq, beq_iff_eq, X.unique hi hj]
  cases hV.layer h <;> cases hV.layer h' <;> first | rfl | exact hid ‹_› ‹_›

/-- Lists of values are the same, element by element, if those related to them are. -/
lemma sameAll_eq (h : List.Forall₂ V vs vs') (h' : List.Forall₂ V ws ws') :
    sameAll vs' ws' = sameAll vs ws := by
  induction vs using values_induction generalizing vs' ws ws' with
  | nil =>
    cases h
    cases h' <;> rfl
  | scalar v vs hv ih =>
    cases h with
    | cons h htail =>
      cases h' with
      | nil => rfl
      | cons h' htail' =>
        rw [sameAll, sameAll, ih htail htail']
        congr 1
        cases hV.layer h with
        | list => cases hv
        | closure id =>
          cases hV.layer h' with
          | closure id' => simp only [same, beq_eq_beq, X.unique id id']
          | _ => rfl
        | _ => cases hV.layer h' <;> rfl
  | list id items vs ihItems ihRest =>
    cases h with
    | cons h htail =>
      cases h' with
      | nil => rfl
      | cons h' htail' =>
        rw [sameAll, sameAll, ihRest htail htail']
        congr 1
        cases hV.layer h with
        | list id items =>
          cases hV.layer h' with
          | list id' items' =>
            rw [same, same]
            exact ihItems items items'
          | _ => rfl

lemma same_eq (h : V a a') (h' : V b b') : a'.same b' = a.same b := by
  simpa [sameAll] using hV.sameAll_eq (.cons h .nil) (.cons h' .nil)

/-- Lists of values are equal, element by element, if those related to them are. -/
lemma equalAll_eq (h : List.Forall₂ V vs vs') (h' : List.Forall₂ V ws ws') :
    equalAll vs' ws' = equalAll vs ws := by
  induction vs using values_induction generalizing vs' ws ws' with
  | nil =>
    cases h
    cases h' <;> rfl
  | scalar v vs hv ih =>
    cases h with
    | cons h htail =>
      cases h' with
      | nil => rfl
      | cons h' htail' =>
        rw [equalAll, equalAll, ih htail htail']
        congr 1
        have hsame := hV.same_eq h h'
        cases hV.layer h with
        | list => cases hv
        | _ => cases hV.layer h' <;> first | rfl | exact hsame
  | list id items vs ihItems ihRest =>
    cases h with
    | cons h htail =>
      cases h' with
      | nil => rfl
      | cons h' htail' =>
        rw [equalAll, equalAll, ihRest htail htail']
        congr 1
        cases hV.layer h with
        | list id items =>
          cases hV.layer h' with
          | list id' items' =>
            rw [equal, equal]
            exact ihItems items items'
          | _ => rfl

lemma equal_eq (h : V a a') (h' : V b b') : a'.equal b' = a.equal b := by
  simpa [equalAll] using hV.equalAll_eq (.cons h .nil) (.cons h' .nil)

variable (hparams : ∀ c d, X.closure c d → d.params = c.params)
include hparams

/-- Related values are printed alike, if closures only are exchanged for closures with the same
parameters. -/
lemma itemTexts_eq (h : List.Forall₂ V vs ws) : itemTexts ws = itemTexts vs := by
  induction vs using values_induction generalizing ws with
  | nil =>
    cases h
    rfl
  | scalar v vs hv ih =>
    cases h with
    | cons h htail =>
      rw [itemTexts, itemTexts, ih htail]
      cases hV.layer h with
      | list => cases hv
      | closure id code => simp only [itemText, Closure.text, hparams _ _ code]
      | _ => rfl
  | list id items vs ihItems ihRest =>
    cases h with
    | cons h htail =>
      rw [itemTexts, itemTexts, ihRest htail]
      cases hV.layer h with
      | list id items => rw [itemText, itemText, ihItems items]

lemma text_eq (h : V a a') : a'.text = a.text := by
  have hitem : a'.itemText = a.itemText := by
    simpa [itemTexts] using hV.itemTexts_eq hparams (.cons h .nil)
  cases hV.layer h with
  | str => rfl
  | _ => exact hitem

end Value.Indiscernible

end SmallLisp
