import SmallLisp.Proofs.Value.Indiscernible

/-!
# Values that match

Two evaluations can do the same although their objects are not the same: an identity may be another
one, and a closure may have another body.  A `Matching` says which identities of the first
evaluation stand for which of the second one; it has to be one to one, because a program can compare
identities.  Values match (`Value.Matches`) if they are the same up to that and up to a relation
between closures.

Matching values are indiscernible (`Value.Matches.indiscernible`).  A value may also be matched with
itself.  Then a matching is a property of objects, which primitive procedures keep; that is what the
condition on texts is for.
-/

namespace SmallLisp

/-- Which objects of one evaluation stand for which of another one. -/
structure Matching where
  identity : Identity → Identity → Prop
  /-- No identity stands for two, nor is one stood for by two. -/
  unique : ∀ {i j i' j'}, identity i j → identity i' j' → (i = i' ↔ j = j')
  /-- Objects are made at the same time in both evaluations. -/
  fresh : ∀ n, identity (.fresh n) (.fresh n)
  /-- The texts that strings may have. -/
  text : String → Prop
  append : ∀ {s t}, text s → text t → text (s ++ t)

/-- Objects are the same if they have a property, and strings have texts of some kind. -/
def Matching.self (object : Identity → Prop) (fresh : ∀ n, object (.fresh n))
    (text : String → Prop) (append : ∀ {s t}, text s → text t → text (s ++ t)) : Matching where
  identity i j := i = j ∧ object i
  unique := by
    rintro i j i' j' ⟨rfl, -⟩ ⟨rfl, -⟩
    rfl
  fresh n := ⟨rfl, fresh n⟩
  text := text
  append := append

/-- Objects are the same. -/
abbrev Matching.equal : Matching :=
  .self (fun _ => True) (fun _ => trivial) (fun _ => True) fun _ _ => trivial

/-- The values are the same up to a matching of objects and a relation between closures. -/
inductive Value.Matches (M : Matching) (C : Closure → Closure → Prop) : Value → Value → Prop
  | int (n : Int64) : Matches M C (.int n) (.int n)
  | float (x : Double) : Matches M C (.float x) (.float x)
  | str {i j : Identity} {s : String} (id : M.identity i j) (text : M.text s) :
      Matches M C (.str i s) (.str j s)
  | bool (b : Bool) : Matches M C (.bool b) (.bool b)
  | nil : Matches M C .nil .nil
  | list {i j : Identity} {vs ws : List Value} (id : M.identity i j)
      (items : List.Forall₂ (Matches M C) vs ws) : Matches M C (.list i vs) (.list j ws)
  | closure {i j : Identity} {c d : Closure} (id : M.identity i j) (code : C c d) :
      Matches M C (.closure i c) (.closure j d)
  | primitive (p : Primitive) : Matches M C (.primitive p) (.primitive p)

/-- The answers are the same up to what matches. -/
inductive Answer.Matches (M : Matching) (C : Closure → Closure → Prop) : Answer → Answer → Prop
  | value {v w : Value} (h : v.Matches M C w) : Matches M C (.value v) (.value w)
  | string {text : String} (h : M.text text) : Matches M C (.string text) (.string text)
  | list {vs ws : List Value} (h : List.Forall₂ (Value.Matches M C) vs ws) :
      Matches M C (.list vs) (.list ws)

namespace Value

variable {M N : Matching} {C D : Closure → Closure → Prop} {a a' : Value}

/-- A coarser matching matches more values. -/
theorem matches_mono (hid : ∀ i j, M.identity i j → N.identity i j)
    (htext : ∀ text, M.text text → N.text text) (hcode : ∀ c d, C c d → D c d)
    {vs ws : List Value} (h : List.Forall₂ (Matches M C) vs ws) :
    List.Forall₂ (Matches N D) vs ws := by
  induction vs using values_induction generalizing ws with
  | nil =>
    cases h
    exact .nil
  | scalar v vs hv ih =>
    cases h with
    | cons h htail =>
      refine .cons ?_ (ih htail)
      cases h with
      | list => cases hv
      | int n => exact .int n
      | float x => exact .float x
      | str id text => exact .str (hid _ _ id) (htext _ text)
      | bool b => exact .bool b
      | nil => exact .nil
      | closure id code => exact .closure (hid _ _ id) (hcode _ _ code)
      | primitive p => exact .primitive p
  | list id items vs ihItems ihRest =>
    cases h with
    | cons h htail =>
      cases h with
      | list id items => exact .cons (.list (hid _ _ id) (ihItems items)) (ihRest htail)

lemma Matches.mono (hid : ∀ i j, M.identity i j → N.identity i j)
    (htext : ∀ text, M.text text → N.text text) (hcode : ∀ c d, C c d → D c d)
    (h : a.Matches M C a') : a.Matches N D a' := by
  cases matches_mono hid htext hcode (.cons h .nil) with
  | cons h => exact h

end Value

/-! ## Matching values are indiscernible -/

/-- What takes the place of what in matching values. -/
def Matching.exchange (M : Matching) (C : Closure → Closure → Prop) : Exchange where
  identity := M.identity
  unique := M.unique
  closure := C
  text := M.text
  append := M.append

variable {M : Matching} {C : Closure → Closure → Prop}

lemma Value.Matches.indiscernible : Value.Indiscernible (M.exchange C) (Value.Matches M C) where
  layer h := by
    cases h with
    | int n => exact .int n
    | float x => exact .float x
    | str id text => exact .str id text
    | bool b => exact .bool b
    | nil => exact .nil
    | list id items => exact .list id items
    | closure id code => exact .closure id code
    | primitive p => exact .primitive p
  int := .int
  float := .float
  bool := .bool

lemma Answer.Alike.matches {answer answer' : Answer}
    (h : answer.Alike (M.exchange C) (Value.Matches M C) answer') : answer.Matches M C answer' := by
  cases h with
  | value h => exact .value h
  | string h => exact .string h
  | list h => exact .list h

end SmallLisp
