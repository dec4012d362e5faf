import SmallLisp.Proofs.Evaluation.Primitive
import SmallLisp.Proofs.Value.Equality

/-!
# One order

The procedures `<`, `<=`, `=`, `>=` and `>` see one and the same order (`ordering_coherent`),
although `=` does not ask for the order of its arguments but for equal contents.  That these two
agree is said once, of any two values that can be compared (`Value.Stand`).  What the five
procedures have to do with each other is then a matter of the four orders in which two values may
stand: less, equal, greater, or none because of a NaN.

The order goes on from one pair to the next, in contrast to equality (`Value.equal_not_transitive`).
Integers are compared exactly with each other and after conversion with doubles, so a chain of three
numbers may change from one order to the other on the way.  Conversion keeps integers in order but
may let them coincide.  Hence a comparison in doubles says that the first integer is less, while an
exact one only says that the first double is not greater; a chain that ends in a double has a step
in doubles too, and this step is strict (`Number.compare?_lt_trans`).
-/

namespace SmallLisp

/-! ## Doubles -/

namespace Binary64

variable {x y : Double}

lemma compare?_eq_none_iff : compare? x y = none ↔ isNaN x = true ∨ isNaN y = true := by
  unfold compare?
  split
  · next h => simpa using h
  · next h => simpa using h

lemma compare?_eq_lt_iff :
    compare? x y = some .lt ↔ isNaN x = false ∧ isNaN y = false ∧ rank x < rank y := by
  unfold compare?
  split
  · next h =>
    rw [Bool.or_eq_true] at h
    rcases h with h | h <;> simp [h]
  · next h =>
    rw [Bool.or_eq_true, not_or, Bool.not_eq_true, Bool.not_eq_true] at h
    simp [h, compare_lt_iff_lt]

lemma compare?_swap (x y : Double) : compare? y x = (compare? x y).map Ordering.swap := by
  unfold compare?
  rw [Bool.or_comm]
  split
  · rfl
  · rw [Option.map_some, ← Std.OrientedCmp.eq_swap]

end Binary64

/-! ## Numbers -/

namespace Number

open Binary64

/-- The order of two numbers: exact for two integers, otherwise that of the doubles to which they
convert; `none` when a double that is no number is involved. -/
def compare? : Number → Number → Option Ordering
  | int m, int n => some (compare m.toInt n.toInt)
  | x, y => Binary64.compare? x.toDouble y.toDouble

variable {x y z : Number}

lemma compare?_float_left (x : Double) (y : Number) :
    compare? (float x) y = Binary64.compare? x y.toDouble := by
  cases y <;> rfl

lemma compare?_float_right (x : Number) (y : Double) :
    compare? x (float y) = Binary64.compare? x.toDouble y := by
  cases x <;> rfl

lemma compare?_int_eq_lt_iff {m n : Int64} :
    compare? (int m) (int n) = some .lt ↔ m.toInt < n.toInt := by
  rw [compare?, Option.some.injEq, compare_lt_iff_lt]

lemma compare?_swap (x y : Number) : y.compare? x = (x.compare? y).map Ordering.swap := by
  cases x with
  | float x =>
    rw [compare?_float_left, compare?_float_right]
    exact Binary64.compare?_swap _ _
  | int m =>
    cases y with
    | float y => exact Binary64.compare?_swap _ _
    | int n => rw [compare?, compare?, Option.map_some, ← Std.OrientedCmp.eq_swap]

/-- Numbers have an order unless one of them is a NaN. -/
lemma compare?_eq_none_iff :
    x.compare? y = none ↔ isNaN x.toDouble = true ∨ isNaN y.toDouble = true := by
  cases x with
  | float x =>
    rw [compare?_float_left]
    exact Binary64.compare?_eq_none_iff
  | int m =>
    cases y with
    | float y => exact Binary64.compare?_eq_none_iff
    | int n => simp [compare?, toDouble, isNaN_ofInt]

/-- Numbers in order are converted to doubles in order, but these may coincide. -/
lemma rank_le_of_lt (h : x.compare? y = some .lt) :
    isNaN x.toDouble = false ∧ isNaN y.toDouble = false ∧ rank x.toDouble ≤ rank y.toDouble := by
  cases x with
  | float x =>
    rw [compare?_float_left] at h
    exact (compare?_eq_lt_iff.mp h).imp_right fun h => h.imp_right le_of_lt
  | int m =>
    cases y with
    | float y => exact (compare?_eq_lt_iff.mp h).imp_right fun h => h.imp_right le_of_lt
    | int n =>
      have hlt := compare?_int_eq_lt_iff.mp h
      exact ⟨isNaN_ofInt _, isNaN_ofInt _, rank_ofInt_mono (le_of_lt hlt)⟩

/-- The order of numbers goes on from one pair to the next, also where it changes between exact
integers and doubles. -/
theorem compare?_lt_trans (hxy : x.compare? y = some .lt) (hyz : y.compare? z = some .lt) :
    x.compare? z = some .lt := by
  obtain ⟨hx, -, hle⟩ := rank_le_of_lt hxy
  obtain ⟨-, hz, hle'⟩ := rank_le_of_lt hyz
  cases x with
  | float x =>
    -- the first step is one in doubles
    rw [compare?_float_left] at hxy ⊢
    have hlt := (compare?_eq_lt_iff.mp hxy).2.2
    exact compare?_eq_lt_iff.mpr ⟨hx, hz, lt_of_lt_of_le hlt hle'⟩
  | int m =>
    cases z with
    | float z =>
      -- the last step is one in doubles
      rw [compare?_float_right] at hyz ⊢
      have hlt := (compare?_eq_lt_iff.mp hyz).2.2
      exact compare?_eq_lt_iff.mpr ⟨hx, hz, lt_of_le_of_lt hle hlt⟩
    | int n =>
      rw [compare?_int_eq_lt_iff]
      cases y with
      | int k => exact lt_trans (compare?_int_eq_lt_iff.mp hxy) (compare?_int_eq_lt_iff.mp hyz)
      | float y =>
        -- were the integers not in order, their doubles would not be either
        by_contra hnot
        have hlt := (compare?_eq_lt_iff.mp hxy).2.2
        exact absurd (rank_ofInt_mono (not_lt.mp hnot)) (not_le.mpr (lt_of_lt_of_le hlt hle'))

end Number

/-! ## Values -/

namespace Value

variable {a b c : Value} {x y : Number} {o : Option Ordering}

/-- All values are numbers, or all are strings. -/
def Comparable (vs : List Value) : Prop :=
  (∀ v ∈ vs, v.kind = .int ∨ v.kind = .float) ∨ ∀ v ∈ vs, v.kind = .str

lemma exists_number (h : a.kind = .int ∨ a.kind = .float) : ∃ x, a.number? = some x := by
  cases a with
  | int n => exact ⟨_, rfl⟩
  | float x => exact ⟨_, rfl⟩
  | _ => rcases h with h | h <;> cases h

lemma exists_text (h : a.kind = .str) : ∃ i s, a = .str i s := by
  cases a with
  | str i s => exact ⟨i, s, rfl⟩
  | _ => cases h

lemma compare?_of_numbers (ha : a.number? = some x) (hb : b.number? = some y) :
    a.compare? b = .ok (x.compare? y) := by
  cases a with
  | int | float => cases ha; cases b <;> cases hb <;> rfl
  | _ => cases ha

lemma equal_of_numbers (ha : a.number? = some x) (hb : b.number? = some y) :
    a.equal b = (x.compare? y == some .eq) := by
  cases a with
  | int m =>
    cases ha
    cases b with
    | int n =>
      cases hb
      rw [Bool.eq_iff_iff]
      simp [equal, same, Number.compare?, Int64.toInt_inj]
    | float y =>
      cases hb
      rfl
    | _ => cases hb
  | float x =>
    cases ha
    cases b with
    | int n =>
      cases hb
      exact Binary64.equal_comm _ _
    | float y =>
      cases hb
      rfl
    | _ => cases hb
  | _ => cases ha

lemma hasNaN_of_number (ha : a.number? = some x) : a.hasNaN = Binary64.isNaN x.toDouble := by
  cases a with
  | int n =>
    cases ha
    exact (Binary64.isNaN_ofInt _).symm
  | float x =>
    cases ha
    rfl
  | _ => cases ha

/-- The two values can be compared, in both directions, and equality tells the same as the
comparison. -/
structure Stand (a b : Value) (o : Option Ordering) : Prop where
  compared : a.compare? b = .ok o
  swapped : b.compare? a = .ok (o.map Ordering.swap)
  equated : a.equal b = (o == some .eq)
  undefined : o = none ↔ a.hasNaN = true ∨ b.hasNaN = true

lemma stand_of_numbers (ha : a.number? = some x) (hb : b.number? = some y) :
    Stand a b (x.compare? y) where
  compared := compare?_of_numbers ha hb
  swapped := by rw [compare?_of_numbers hb ha, Number.compare?_swap]
  equated := equal_of_numbers ha hb
  undefined := by
    rw [hasNaN_of_number ha, hasNaN_of_number hb]
    exact Number.compare?_eq_none_iff

lemma stand_of_texts (i j : Identity) (s t : String) :
    Stand (.str i s) (.str j t) (some (compare s t)) where
  compared := rfl
  swapped := by
    rw [compare?, Option.map_some, ← Std.OrientedCmp.eq_swap]
  equated := by
    rw [Bool.eq_iff_iff]
    simp [equal, same]
  undefined := by simp [hasNaN]

lemma Stand.symm (h : Stand a b o) : Stand b a (o.map Ordering.swap) where
  compared := h.swapped
  swapped := by
    rw [h.compared]
    rcases o with _ | _ | _ | _ <;> rfl
  equated := by
    rw [equal_comm, h.equated]
    rcases o with _ | _ | _ | _ <;> rfl
  undefined := by rw [Option.map_eq_none_iff, h.undefined, or_comm]

namespace Comparable

/-- Any two comparable values stand in an order to each other. -/
lemma exists_stand {vs : List Value} (h : Comparable vs) (ha : a ∈ vs) (hb : b ∈ vs) :
    ∃ o, Stand a b o := by
  rcases h with h | h
  · obtain ⟨x, hx⟩ := exists_number (h a ha)
    obtain ⟨y, hy⟩ := exists_number (h b hb)
    exact ⟨_, stand_of_numbers hx hy⟩
  · obtain ⟨i, s, rfl⟩ := exists_text (h a ha)
    obtain ⟨j, t, rfl⟩ := exists_text (h b hb)
    exact ⟨_, stand_of_texts i j s t⟩

/-- The order of comparable values goes on from one pair to the next. -/
lemma compare?_lt_trans {vs : List Value} (h : Comparable vs) (ha : a ∈ vs) (hb : b ∈ vs)
    (hc : c ∈ vs) (hab : a.compare? b = .ok (some .lt)) (hbc : b.compare? c = .ok (some .lt)) :
    a.compare? c = .ok (some .lt) := by
  rcases h with h | h
  · obtain ⟨x, hx⟩ := exists_number (h a ha)
    obtain ⟨y, hy⟩ := exists_number (h b hb)
    obtain ⟨z, hz⟩ := exists_number (h c hc)
    rw [compare?_of_numbers hx hy, Except.ok.injEq] at hab
    rw [compare?_of_numbers hy hz, Except.ok.injEq] at hbc
    rw [compare?_of_numbers hx hz, Except.ok.injEq]
    exact Number.compare?_lt_trans hab hbc
  · obtain ⟨i, s, rfl⟩ := exists_text (h a ha)
    obtain ⟨j, t, rfl⟩ := exists_text (h b hb)
    obtain ⟨k, u, rfl⟩ := exists_text (h c hc)
    rw [compare?, Except.ok.injEq, Option.some.injEq] at hab hbc ⊢
    exact Std.TransCmp.lt_trans hab hbc

end Comparable

end Value

/-! ## The procedures -/

namespace Primitive

variable [Machine] {a b c : Value} {p : Primitive} {r r' : Bool} {o : Option Ordering}

/-- Wherever and in whatever state the procedure is called with the two values, it answers this
boolean and changes nothing. -/
def Answers (p : Primitive) (a b : Value) (r : Bool) : Prop :=
  ∀ call env s, callPrimitive call env p [a, b] s = .ok (.bool r) s

/-- A procedure does not answer two different booleans. -/
lemma Answers.unique (h : p.Answers a b r) (h' : p.Answers a b r') : r = r' := by
  have hr := h (fun _ _ _ => .exhausted) 0 {}
  have hr' := h' (fun _ _ _ => .exhausted) 0 {}
  rw [hr] at hr'
  cases hr'
  rfl

lemma Answers.true_iff (h : p.Answers a b r) : p.Answers a b true ↔ r = true := by
  constructor
  · exact h.unique
  · rintro rfl
    exact h

lemma answers_of_operation {f : Value → Value → Except Fault Answer}
    (meaning : p.meaning = .operation (.two f)) (h : f a b = .ok (.bool r)) :
    p.Answers a b r := by
  intro call env s
  rw [callPrimitive_of_operation meaning rfl, h]
  rfl

/-- A procedure that tests the order answers whether there is one and passes the test. -/
lemma answers_of_compare {test : Ordering → Bool}
    (meaning : p.meaning = .operation (.two (Value.ordered test))) (h : a.compare? b = .ok o) :
    p.Answers a b (o.any test) := by
  refine answers_of_operation meaning ?_
  rw [Value.ordered, h]
  rfl

/-- The procedure `=` answers whether the values are equal. -/
lemma answers_equal (a b : Value) : equal.Answers a b (a.equal b) := answers_of_operation rfl rfl

/-- So does the procedure `equal?`. -/
lemma answers_isEqual (a b : Value) : isEqual.Answers a b (a.equal b) :=
  answers_of_operation rfl rfl

/-- The procedure `eq?` answers whether the values are identical. -/
lemma answers_isSame (a b : Value) : isSame.Answers a b (a.identical b) :=
  answers_of_operation rfl rfl

end Primitive

namespace Value.Stand

open Primitive

variable [Machine] {a b : Value} {o : Option Ordering}

/-- A procedure that tests the order holds of values whose order passes the test. -/
lemma answers_iff (h : Stand a b o) {p : Primitive} {test : Ordering → Bool}
    (meaning : p.meaning = .operation (.two (Value.ordered test))) :
    p.Answers a b true ↔ ∃ q, o = some q ∧ test q = true := by
  rw [(answers_of_compare meaning h.compared).true_iff, Option.any_eq_true]

lemma less_iff (h : Stand a b o) : less.Answers a b true ↔ o = some .lt := by
  rw [h.answers_iff rfl]
  rcases o with _ | _ | _ | _ <;> simp

lemma greater_iff (h : Stand a b o) : greater.Answers a b true ↔ o = some .gt := by
  rw [h.answers_iff rfl]
  rcases o with _ | _ | _ | _ <;> simp

lemma equal_iff (h : Stand a b o) : Primitive.equal.Answers a b true ↔ o = some .eq := by
  rw [(answers_equal a b).true_iff, h.equated, beq_iff_eq]

lemma atMost_iff (h : Stand a b o) :
    atMost.Answers a b true ↔ less.Answers a b true ∨ Primitive.equal.Answers a b true := by
  rw [h.answers_iff rfl, h.less_iff, h.equal_iff]
  rcases o with _ | _ | _ | _ <;> simp

lemma atLeast_iff (h : Stand a b o) :
    atLeast.Answers a b true ↔ greater.Answers a b true ∨ Primitive.equal.Answers a b true := by
  rw [h.answers_iff rfl, h.greater_iff, h.equal_iff]
  rcases o with _ | _ | _ | _ <;> simp

/-- The procedures `<` and `>` are converses of each other. -/
lemma less_iff_greater (h : Stand a b o) :
    less.Answers a b true ↔ greater.Answers b a true := by
  rw [h.less_iff, h.symm.greater_iff]
  rcases o with _ | _ | _ | _ <;> simp

/-- Each of the five procedures answers. -/
lemma total (h : Stand a b o) :
    ∀ p ∈ [less, atMost, Primitive.equal, atLeast, greater], ∃ r, p.Answers a b r := by
  have hordered {p : Primitive} {test : Ordering → Bool}
      (meaning : p.meaning = .operation (.two (Value.ordered test))) : ∃ r, p.Answers a b r :=
    ⟨_, answers_of_compare meaning h.compared⟩
  simp only [List.forall_mem_cons]
  exact ⟨hordered rfl, hordered rfl, ⟨_, answers_equal a b⟩, hordered rfl, hordered rfl,
    List.forall_mem_nil _⟩

/-- At most one of `<`, `=` and `>` holds. -/
lemma exclusive (h : Stand a b o) :
    ∀ p ∈ [less, Primitive.equal, greater], ∀ q ∈ [less, Primitive.equal, greater],
      p.Answers a b true → q.Answers a b true → p = q := by
  simp only [List.forall_mem_cons, h.less_iff, h.equal_iff, h.greater_iff]
  rcases o with _ | _ | _ | _ <;> simp

/-- One of `<`, `=` and `>` holds unless there is a NaN. -/
lemma complete (h : Stand a b o) (ha : a.hasNaN = false) (hb : b.hasNaN = false) :
    ∃ p ∈ [less, Primitive.equal, greater], p.Answers a b true := by
  have hsome : o ≠ none := by simp [h.undefined, ha, hb]
  simp only [List.exists_mem_cons_iff, h.less_iff, h.equal_iff, h.greater_iff]
  rcases o with _ | _ | _ | _
  · exact absurd rfl hsome
  all_goals simp

/-- No value is less than itself, because it would be greater as well. -/
lemma irreflexive (h : Stand a a o) : ¬ less.Answers a a true := by
  intro hless
  have hsame : less = greater :=
    h.exclusive less (by decide) greater (by decide) hless (h.less_iff_greater.mp hless)
  cases hsame

end Value.Stand

namespace Primitive

variable {a b c : Value}

/-- For values that are all numbers or all strings, each of the five procedures answers a boolean,
and the answers are those of one order: `<` and `>` are converses of each other; `<=` says that `<`
or `=` holds, and `>=` that `>` or `=` does; of `<`, `=` and `>` at most one holds, and one does
unless there is a NaN; and `<` is irreflexive and transitive. -/
theorem ordering_coherent [Machine] (h : Value.Comparable [a, b, c]) :
    (∀ p ∈ [less, atMost, equal, atLeast, greater], ∃ r, p.Answers a b r) ∧
    (less.Answers a b true ↔ greater.Answers b a true) ∧
    (atMost.Answers a b true ↔ less.Answers a b true ∨ equal.Answers a b true) ∧
    (atLeast.Answers a b true ↔ greater.Answers a b true ∨ equal.Answers a b true) ∧
    (∀ p ∈ [less, equal, greater], ∀ q ∈ [less, equal, greater],
      p.Answers a b true → q.Answers a b true → p = q) ∧
    (a.hasNaN = false → b.hasNaN = false →
      ∃ p ∈ [less, equal, greater], p.Answers a b true) ∧
    ¬ less.Answers a a true ∧
    (less.Answers a b true → less.Answers b c true → less.Answers a c true) := by
  have hmem : a ∈ [a, b, c] ∧ b ∈ [a, b, c] ∧ c ∈ [a, b, c] := by simp
  obtain ⟨ha, hb, hc⟩ := hmem
  obtain ⟨_, hab⟩ := h.exists_stand ha hb
  obtain ⟨_, haa⟩ := h.exists_stand ha ha
  refine ⟨hab.total, hab.less_iff_greater, hab.atMost_iff, hab.atLeast_iff, hab.exclusive,
    hab.complete, haa.irreflexive, fun hless hless' => ?_⟩
  obtain ⟨_, hbc⟩ := h.exists_stand hb hc
  obtain ⟨_, hac⟩ := h.exists_stand ha hc
  obtain rfl := hab.less_iff.mp hless
  obtain rfl := hbc.less_iff.mp hless'
  have hlt := h.compare?_lt_trans ha hb hc hab.compared hbc.compared
  exact hac.less_iff.mpr (Except.ok.inj (hac.compared.symm.trans hlt))

section

open scoped Machine

/-- In a chain of an integer, a double and an integer beyond `2 ^ 53`, none of the integers is a
double: the first one is rounded down and the last one up. -/
theorem ordering_coherent_mixed :
    let a := Value.int 9007199254740993
    let b := Value.float 9007199254740994
    let c := Value.int 9007199254740995
    Value.Comparable [a, b, c] ∧ less.Answers a b true ∧ less.Answers b c true ∧
      less.Answers a c true ∧ greater.Answers b a true ∧ atMost.Answers a b true ∧
      ¬ equal.Answers a b true ∧ a.hasNaN = false ∧ b.hasNaN = false := by
  intro a b c
  have h : Value.Comparable [a, b, c] := .inl (by decide)
  have hab : less.Answers a b true :=
    (Value.stand_of_numbers rfl rfl).less_iff.mpr (by decide +kernel)
  have hbc : less.Answers b c true :=
    (Value.stand_of_numbers rfl rfl).less_iff.mpr (by decide +kernel)
  obtain ⟨-, hconverse, hatMost, -, hexclusive, -, -, htrans⟩ := ordering_coherent h
  refine ⟨h, hab, hbc, htrans hab hbc, hconverse.mp hab, hatMost.mpr (.inl hab), fun hequal => ?_,
    by decide +kernel, by decide +kernel⟩
  have hsame : less = equal := hexclusive less (by decide) equal (by decide) hab hequal
  cases hsame

end

end Primitive

end SmallLisp
