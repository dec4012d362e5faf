import SmallLisp.Proofs.Value.Matching
import SmallLisp.Proofs.Value.Renumbering

/-!
# Primitive procedures cannot tell indiscernible values apart

A primitive procedure sees of a value its kind, its number, its text and its elements, and how it
compares with other values.  Indiscernible values agree in all of that, so the procedure finds the
same fault with them or answers the same (`Primitive.respects_of_operation`).  An answer that is one
of the arguments, or is made of their parts, is related because these are; all other answers have no
objects in them.

That is shown once, for any relation of this kind.  Three facts are cases of it: matching arguments
get matching answers (`Primitive.uniform_of_operation`), the numbers of frames and objects are not
known to a procedure (`Primitive.renumbers_of_operation`), and no object is in an answer that is not
in the arguments (`Primitive.conservative_of_operation`).
-/

namespace SmallLisp

section Indiscernible

variable {X : Exchange} {V : Value → Value → Prop}

/-- The results of an operation on related arguments. -/
abbrev Answer.Agreeing (X : Exchange) (V : Value → Value → Prop) :
    Except Fault Answer → Except Fault Answer → Prop :=
  Fault.Agree (Answer.Alike X V)

/-- The body does the same with related arguments. -/
def Body.Respects (X : Exchange) (V : Value → Value → Prop) (body : Body (Except Fault Answer)) :
    Prop :=
  ∀ args args', List.Forall₂ V args args' →
    Option.Rel (Answer.Agreeing X V) (body.run? args) (body.run? args')

variable {a a' b b' : Value} {rest rest' : List Value}

namespace Body

lemma respects_one {f : Value → Except Fault Answer}
    (h : ∀ {a a'}, V a a' → Answer.Agreeing X V (f a) (f a')) : (one f).Respects X V := by
  intro args args' hargs
  rcases hargs with _ | ⟨ha, _ | ⟨hb, hrest⟩⟩
  · exact .none
  · exact .some (h ha)
  · exact .none

lemma respects_two {f : Value → Value → Except Fault Answer}
    (h : ∀ {a a' b b'}, V a a' → V b b' → Answer.Agreeing X V (f a b) (f a' b')) :
    (two f).Respects X V := by
  intro args args' hargs
  rcases hargs with _ | ⟨ha, _ | ⟨hb, _ | ⟨hc, hrest⟩⟩⟩
  · exact .none
  · exact .none
  · exact .some (h ha hb)
  · exact .none

lemma respects_oneOrTwo {f : Value → Option Value → Except Fault Answer}
    (h : ∀ {a a' b b'}, V a a' → Option.Rel V b b' → Answer.Agreeing X V (f a b) (f a' b')) :
    (oneOrTwo f).Respects X V := by
  intro args args' hargs
  rcases hargs with _ | ⟨ha, _ | ⟨hb, _ | ⟨hc, hrest⟩⟩⟩
  · exact .none
  · exact .some (h ha .none)
  · exact .some (h ha (.some hb))
  · exact .none

lemma respects_oneOrMore {f : Value → List Value → Except Fault Answer}
    (h : ∀ {a a' rest rest'}, V a a' → List.Forall₂ V rest rest' →
      Answer.Agreeing X V (f a rest) (f a' rest')) : (oneOrMore f).Respects X V := by
  intro args args' hargs
  rcases hargs with _ | ⟨ha, hrest⟩
  · exact .none
  · exact .some (h ha hrest)

end Body

variable (hV : Value.Indiscernible X V)
include hV

/-! ## Answers without objects -/

lemma Answer.agree_int (n : Int) : Answer.Agreeing X V (Answer.int n) (Answer.int n) := by
  unfold Answer.int
  split
  · exact .ok (.value (hV.int _))
  · exact .error _

lemma Answer.agree_bool (b : Bool) : Answer.Agreeing X V (.ok (.bool b)) (.ok (.bool b)) :=
  .ok (.value (hV.bool b))

namespace Arithmetic

lemma agree_combine (verb : Verb) (f : Int → Int → Int) (g : Double → Double → Double)
    (ha : V a a') (hb : V b b') :
    Answer.Agreeing X V (combine verb f g a b) (combine verb f g a' b') := by
  simp only [combine, hV.number?_eq ha, hV.number?_eq hb, hV.kind_eq ha, hV.kind_eq hb]
  split
  · exact Answer.agree_int hV _
  · exact .ok (.value (hV.float _))
  · exact .error _

lemma agree_add [Machine] (ha : V a a') (hb : V b b') : Answer.Agreeing X V (add a b)
    (add a' b') := by
  have hnumbers := agree_combine hV .add (· + ·) (· + ·) ha hb
  cases hV.layer ha with
  | str id text =>
    cases hV.layer hb with
    | str id' text' => exact .ok (.string (X.append text text'))
    | _ => exact hnumbers
  | list id items =>
    cases hV.layer hb with
    | list id' items' => exact .ok (.list (List.rel_append items items'))
    | _ => exact hnumbers
  | _ => exact hnumbers

lemma agree_divide [Machine] (ha : V a a') (hb : V b b') :
    Answer.Agreeing X V (divide a b) (divide a' b') := by
  simp only [divide, hV.number?_eq ha, hV.number?_eq hb, hV.kind_eq ha, hV.kind_eq hb]
  split
  · split
    · exact .error _
    · exact .ok (.value (hV.float _))
  · exact .error _

lemma agree_abs (ha : V a a') : Answer.Agreeing X V (abs a) (abs a') := by
  cases hV.layer ha with
  | int n =>
    rw [abs]
    exact Answer.agree_int hV _
  | float x => exact .ok (.value (hV.float _))
  | _ => exact .error _

lemma agree_roundInt (n : Int64) (digits : Int) :
    Answer.Agreeing X V (roundInt n digits) (roundInt n digits) := by
  unfold roundInt
  split
  · exact .ok (.value (hV.int _))
  · split
    · exact .ok (.value (hV.int _))
    · exact Answer.agree_int hV _

/-- Rounding looks at numbers and at kinds only. -/
lemma agree_round [Machine] {digits digits' : Option Value} (ha : V a a')
    (hdigits : Option.Rel V digits digits') :
    Answer.Agreeing X V (round a digits) (round a' digits') := by
  cases hdigits with
  | none =>
    cases hV.layer ha with
    | int n => exact .ok (.value (hV.int n))
    | float x =>
      simp only [round]
      split
      · exact .ok (.value (hV.int _))
      · exact .error _
    | _ => exact .error _
  | some h =>
    cases hV.layer h with
    | int digits =>
      cases hV.layer ha with
      | int n => exact agree_roundInt hV n _
      | float x => exact .ok (.value (hV.float _))
      | _ => exact .error _
    | _ => cases hV.layer ha <;> exact .error _

end Arithmetic

lemma Value.agree_ordered (test : Ordering → Bool) (ha : V a a') (hb : V b b') :
    Answer.Agreeing X V (a.ordered test b) (a'.ordered test b') := by
  simp only [ordered, hV.compare?_eq ha hb]
  cases a.compare? b with
  | ok order => exact Answer.agree_bool hV _
  | error fault => exact .error fault

/-! ## Answers that are arguments or parts of them -/

namespace Extreme

lemma agree_pick (extreme : Extreme) (ha : V a a') (hb : V b b') :
    Fault.Agree V (extreme.pick a b) (extreme.pick a' b') := by
  rw [pick, pick, hV.compare?_eq hb ha]
  cases b.compare? a with
  | error fault => exact .error fault
  | ok order =>
    refine .ok ?_
    split
    · exact hb
    · exact ha

lemma agree_foldlM (extreme : Extreme) (ha : V a a') (hrest : List.Forall₂ V rest rest') :
    Fault.Agree V (rest.foldlM extreme.pick a) (rest'.foldlM extreme.pick a') := by
  induction hrest generalizing a a' with
  | nil => exact .ok ha
  | cons hb _ ih =>
    rw [List.foldlM_cons, List.foldlM_cons]
    exact (extreme.agree_pick hV ha hb).bind fun _ _ h => ih h

lemma forall₂_candidates (ha : V a a') (hrest : List.Forall₂ V rest rest') :
    List.Forall₂ V (candidates a rest) (candidates a' rest') := by
  cases hrest with
  | cons hb hrest => cases hV.layer ha <;> exact .cons ha (.cons hb hrest)
  | nil =>
    cases hV.layer ha with
    | list id items => exact items
    | _ => exact .cons ha .nil

lemma agree_choose (extreme : Extreme) (ha : V a a') (hrest : List.Forall₂ V rest rest') :
    Answer.Agreeing X V (extreme.choose a rest) (extreme.choose a' rest') := by
  have hcandidates := forall₂_candidates hV ha hrest
  unfold choose
  generalize candidates a rest = all, candidates a' rest' = all' at hcandidates
  cases hcandidates with
  | nil => exact .error _
  | cons hfirst hothers =>
    exact (extreme.agree_foldlM hV hfirst hothers).bind fun _ _ h => .ok (.value h)

end Extreme

namespace Lists

lemma agree_argument (ha : V a a') :
    Fault.Agree (List.Forall₂ V) (argument a) (argument a') := by
  cases hV.layer ha with
  | list id items => exact .ok items
  | _ => exact .error _

lemma agree_second (ha : V a a') : Fault.Agree (List.Forall₂ V) (second a) (second a') := by
  cases hV.layer ha with
  | list id items => exact .ok items
  | _ => exact .error _

lemma agree_mapM_argument (hrest : List.Forall₂ V rest rest') :
    Fault.Agree (List.Forall₂ (List.Forall₂ V)) (rest.mapM argument) (rest'.mapM argument) :=
  Fault.Agree.mapM (fun _ _ h => agree_argument hV h) hrest

lemma agree_car (ha : V a a') : Answer.Agreeing X V (car a) (car a') := by
  refine (agree_argument hV ha).bind fun _ _ hitems => ?_
  cases hitems with
  | nil => exact .error _
  | cons hfirst => exact .ok (.value hfirst)

lemma agree_cdr (ha : V a a') : Answer.Agreeing X V (cdr a) (cdr a') := by
  refine (agree_argument hV ha).bind fun _ _ hitems => ?_
  cases hitems with
  | nil => exact .ok (.list .nil)
  | cons _ hrest => exact .ok (.list hrest)

lemma agree_cons (ha : V a a') (hb : V b b') : Answer.Agreeing X V (cons a b) (cons a' b') :=
  (agree_second hV hb).bind fun _ _ hitems => .ok (.list (.cons ha hitems))

lemma agree_length (ha : V a a') : Answer.Agreeing X V (length a) (length a') := by
  -- the bounds of integers are not to be computed with, so their test is hidden
  obtain ⟨int?, hint⟩ : ∃ f, f = Integer.ofInt? := ⟨_, rfl⟩
  unfold length
  rw [← hint]
  cases hV.layer ha with
  | list id items =>
    simp only [items.length_eq]
    split
    · exact .ok (.value (hV.int _))
    · exact .error _
  | str id text =>
    simp only
    split
    · exact .ok (.value (hV.int _))
    · exact .error _
  | _ => exact .error _

lemma isNull_eq (ha : V a a') : isNull a' = isNull a := by
  cases hV.layer ha with
  | list id items => cases items <;> rfl
  | _ => rfl

end Lists

/-! ## All operations -/

/-- An operation of the language cannot tell indiscernible arguments apart. -/
theorem Primitive.respects_of_operation [Machine] {p : Primitive}
    {body : Body (Except Fault Answer)}
    (meaning : p.meaning = .operation body) : body.Respects X V := by
  cases p with
  | add | append =>
    cases meaning
    exact Body.respects_two (Arithmetic.agree_add hV)
  | subtract | multiply =>
    cases meaning
    exact Body.respects_two (Arithmetic.agree_combine hV _ _ _)
  | divide =>
    cases meaning
    exact Body.respects_two (Arithmetic.agree_divide hV)
  | greater | atLeast | less | atMost =>
    cases meaning
    exact Body.respects_two (Value.agree_ordered hV _)
  | equal | isEqual | unequal =>
    cases meaning
    refine Body.respects_two fun ha hb => ?_
    rw [hV.equal_eq ha hb]
    exact Answer.agree_bool hV _
  | isSame =>
    cases meaning
    refine Body.respects_two fun ha hb => ?_
    rw [hV.identical_eq ha hb]
    exact Answer.agree_bool hV _
  | abs =>
    cases meaning
    exact Body.respects_one (Arithmetic.agree_abs hV)
  | round =>
    cases meaning
    exact Body.respects_oneOrTwo (Arithmetic.agree_round hV)
  | max | min =>
    cases meaning
    exact Body.respects_oneOrMore (Extreme.agree_choose hV _)
  | car =>
    cases meaning
    exact Body.respects_one (Lists.agree_car hV)
  | cdr =>
    cases meaning
    exact Body.respects_one (Lists.agree_cdr hV)
  | cons =>
    cases meaning
    exact Body.respects_two (Lists.agree_cons hV)
  | list =>
    cases meaning
    exact fun _ _ hargs => .some (.ok (.list hargs))
  | length =>
    cases meaning
    exact Body.respects_one (Lists.agree_length hV)
  | isList =>
    cases meaning
    refine Body.respects_one fun ha => ?_
    cases hV.layer ha <;> exact Answer.agree_bool hV _
  | isNull =>
    cases meaning
    refine Body.respects_one fun ha => ?_
    rw [Lists.isNull_eq hV ha]
    exact Answer.agree_bool hV _
  | isProcedure =>
    cases meaning
    refine Body.respects_one fun ha => ?_
    rw [hV.isProcedure_eq ha]
    exact Answer.agree_bool hV _
  | not =>
    cases meaning
    refine Body.respects_one fun ha => ?_
    rw [hV.isTruthy_eq ha]
    exact Answer.agree_bool hV _
  | apply | map | writeLine => cases meaning

end Indiscernible

/-! ## Columns -/

/-- Lists that are related element by element have related columns. -/
lemma Lists.forall₂_columns {V : Value → Value → Prop} {first first' : List Value}
    {others others' : List (List Value)} (hfirst : List.Forall₂ V first first')
    (hothers : List.Forall₂ (List.Forall₂ V) others others') :
    List.Forall₂ (List.Forall₂ V) (columns first others) (columns first' others') := by
  induction hfirst generalizing others others' with
  | nil => exact .nil
  | @cons v w rest rest' hv _ ih =>
    -- related lists have the same length, so columns end at the same place
    have hempty : others'.any List.isEmpty = others.any List.isEmpty := by
      clear ih
      induction hothers with
      | nil => rfl
      | cons hrow _ ih =>
        rw [List.any_cons, List.any_cons, ih]
        cases hrow <;> rfl
    have hheads : List.Forall₂ V (others.filterMap List.head?) (others'.filterMap List.head?) := by
      refine List.rel_filterMap (fun row row' hrow => ?_) hothers
      cases hrow with
      | nil => exact .none
      | cons hw => exact .some hw
    have htails : List.Forall₂ (List.Forall₂ V) (others.map List.tail) (others'.map List.tail) := by
      refine List.rel_map (fun row row' hrow => ?_) hothers
      cases hrow with
      | nil => exact .nil
      | cons _ hrest => exact hrest
    rw [columns, columns, hempty]
    split
    · exact .nil
    · exact .cons (.cons hv hheads) (ih htails)

/-- What holds of the elements of the lists holds of the values in their columns. -/
lemma Lists.forall_columns {P : Value → Prop} {first : List Value} {others : List (List Value)}
    (hfirst : ∀ v ∈ first, P v) (hothers : ∀ row ∈ others, ∀ v ∈ row, P v) :
    ∀ column ∈ columns first others, ∀ v ∈ column, P v := by
  have hcolumns : List.Forall₂ (List.Forall₂ fun v _ => P v) (columns first others) _ :=
    forall₂_columns (List.forall₂_same.mpr hfirst)
      (List.forall₂_same.mpr fun row hrow => List.forall₂_same.mpr (hothers row hrow))
  simpa only [List.forall₂_same] using hcolumns

/-! ## Matching arguments -/

/-- The results of an operation on matching arguments. -/
abbrev Answer.Agree (M : Matching) (C : Closure → Closure → Prop) :
    Except Fault Answer → Except Fault Answer → Prop :=
  Fault.Agree (Answer.Matches M C)

/-- The body cannot tell matching arguments apart. -/
def Body.Uniform (M : Matching) (C : Closure → Closure → Prop)
    (body : Body (Except Fault Answer)) : Prop :=
  ∀ args args', List.Forall₂ (Value.Matches M C) args args' →
    Option.Rel (Answer.Agree M C) (body.run? args) (body.run? args')

/-- An operation of the language cannot tell matching arguments apart. -/
theorem Primitive.uniform_of_operation [Machine] {M : Matching} {C : Closure → Closure → Prop}
    {p : Primitive} {body : Body (Except Fault Answer)} (meaning : p.meaning = .operation body) :
    body.Uniform M C := by
  intro args args' hargs
  have hresults := respects_of_operation Value.Matches.indiscernible meaning args args' hargs
  generalize body.run? args = result, body.run? args' = result' at hresults
  cases hresults with
  | none => exact .none
  | some hresults => exact .some (hresults.mono fun _ _ => Answer.Alike.matches)

/-! ## Renumbered arguments -/

section Renumbering

variable {r : Renumbering}

/-- The results of operations on renumbered arguments. -/
abbrev Answer.renumbered (r : Renumbering) : Except Fault Answer → Except Fault Answer :=
  Except.map (Answer.renumber r)

/-- The body does on renumbered arguments what it does on the arguments. -/
def Body.Renumbers (r : Renumbering) (body : Body (Except Fault Answer)) : Prop :=
  ∀ args, body.run? (args.map (Value.renumber r)) = (body.run? args).map (Answer.renumbered r)

/-- An operation of the language does on renumbered arguments what it does on the arguments. -/
theorem Primitive.renumbers_of_operation [Machine] {p : Primitive}
    {body : Body (Except Fault Answer)}
    (meaning : p.meaning = .operation body) : body.Renumbers r := by
  intro args
  have hresults := respects_of_operation Value.Renumbered.indiscernible meaning args _
    (Value.forall₂_renumbered r args)
  generalize body.run? args = result, body.run? (args.map _) = result' at hresults ⊢
  cases hresults with
  | none => rfl
  | some hresults =>
    rw [hresults.eq_map fun _ _ => Answer.Alike.renumber_eq]
    rfl

namespace Lists

lemma argument_renumber (v : Value) :
    argument (v.renumber r) = (argument v).map (List.map (Value.renumber r)) := by
  have hitems := agree_argument Value.Renumbered.indiscernible (rfl : Value.Renumbered r v _)
  exact hitems.eq_map fun _ _ => Value.forall₂_renumbered_iff.mp

lemma second_renumber (v : Value) :
    second (v.renumber r) = (second v).map (List.map (Value.renumber r)) := by
  have hitems := agree_second Value.Renumbered.indiscernible (rfl : Value.Renumbered r v _)
  exact hitems.eq_map fun _ _ => Value.forall₂_renumbered_iff.mp

lemma mapM_argument_renumber (lists : List Value) :
    (lists.map (Value.renumber r)).mapM argument =
      (lists.mapM argument).map (List.map (List.map (Value.renumber r))) := by
  have hrows :=
    agree_mapM_argument Value.Renumbered.indiscernible (Value.forall₂_renumbered r lists)
  exact hrows.eq_map fun _ _ => Value.forall₂_rows_renumbered_iff.mp

lemma columns_renumber (first : List Value) (others : List (List Value)) :
    columns (first.map (Value.renumber r)) (others.map (List.map (Value.renumber r))) =
      (columns first others).map (List.map (Value.renumber r)) := by
  have hcolumns : List.Forall₂ (List.Forall₂ (Value.Renumbered r)) (columns first others) _ :=
    forall₂_columns (Value.forall₂_renumbered r first) (Value.forall₂_rows_renumbered_iff.mpr rfl)
  exact (Value.forall₂_rows_renumbered_iff.mp hcolumns).symm

end Lists

end Renumbering

/-! ## Objects in the arguments -/

/-- Nothing takes the place of anything else. -/
def Exchange.none : Exchange where
  identity := Eq
  unique := by
    rintro i _ i' _ rfl rfl
    rfl
  closure := Eq
  text _ := True
  append _ _ := trivial

/-- The values are the same, and all objects in them are among the given ones. -/
def Value.SameWithin (objects : List Value) (v w : Value) : Prop :=
  v.objects ⊆ objects ∧ v = w

lemma Value.SameWithin.indiscernible {objects : List Value} :
    Indiscernible .none (SameWithin objects) where
  layer := by
    rintro v _ ⟨hv, rfl⟩
    cases v with
    | int n => exact .int n
    | float x => exact .float x
    | str id text => exact .str rfl trivial
    | bool b => exact .bool b
    | nil => exact .nil
    | list id items =>
      refine .list rfl (List.forall₂_same.mpr fun v hmem => ⟨fun o ho => hv ?_, rfl⟩)
      exact objectsAll_subset_list id items (mem_objectsAll.mpr ⟨v, hmem, ho⟩)
    | closure id c => exact .closure rfl rfl
    | primitive p => exact .primitive p
  int _ := ⟨List.nil_subset _, rfl⟩
  float _ := ⟨List.nil_subset _, rfl⟩
  bool _ := ⟨List.nil_subset _, rfl⟩

lemma Answer.Alike.objects_subset {objects : List Value} {answer answer' : Answer}
    (h : answer.Alike .none (Value.SameWithin objects) answer') : answer.objects ⊆ objects := by
  cases h with
  | value h => exact h.1
  | string => exact List.nil_subset _
  | list h =>
    intro o ho
    obtain ⟨v, hv, ho⟩ := Value.mem_objectsAll.mp ho
    exact ((List.forall₂_and_left _ _).mp h).1 v hv ho

/-- Whatever the body answers, the objects in the answer are in the arguments. -/
def Body.Conservative (body : Body (Except Fault Answer)) : Prop :=
  ∀ args answer, body.run? args = some (.ok answer) → answer.objects ⊆ Value.objectsAll args

/-- An operation of the language comes by no objects but those in its arguments. -/
theorem Primitive.conservative_of_operation [Machine] {p : Primitive}
    {body : Body (Except Fault Answer)}
    (meaning : p.meaning = .operation body) : body.Conservative := by
  intro args answer run
  have hargs : List.Forall₂ (Value.SameWithin (Value.objectsAll args)) args args :=
    List.forall₂_same.mpr fun v hv => ⟨fun o ho => Value.mem_objectsAll.mpr ⟨v, hv, ho⟩, rfl⟩
  have hresults := respects_of_operation Value.SameWithin.indiscernible meaning args args hargs
  rw [run] at hresults
  cases hresults with
  | some hresults =>
    cases hresults with
    | ok hanswer => exact hanswer.objects_subset

end SmallLisp
