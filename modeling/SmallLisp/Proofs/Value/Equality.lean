import SmallLisp.Proofs.Number.Conversion
import SmallLisp.Proofs.Value.Matching

/-!
# Equal contents

Two values have equal contents (`Value.equal`) if they are the same up to kinds of numbers: integers
are compared exactly with each other, but with a double only after they were converted to one.
Every value without a NaN equals itself (`Value.equal_self`), and what a value equals also equals
the value (`Value.equal_comm`).

Equality does not go on from one value to the next.  Integers that convert to the same double all
equal that double, and do not equal each other (`Value.equal_not_transitive`).  This is the only
exception: if `a` equals `b` and `b` equals `c`, then `a` equals `c`, unless two different integers
stand at the same place in `a` and in `c` (`Value.equal_iff_of_equal`).  Then `b` has the double at
that place to which both convert, and the integers are at least `2 ^ 53` in magnitude, because up to
there the conversion is exact (`Value.float_of_different_ints`).
-/

namespace SmallLisp

/-! ## Doubles -/

namespace Binary64

variable {x y z : Double}

lemma equal_iff : equal x y = true ↔ isNaN x = false ∧ isNaN y = false ∧ rank x = rank y := by
  unfold equal compare?
  by_cases hx : isNaN x
  · simp [hx]
  · by_cases hy : isNaN y
    · simp [hy]
    · simp [hx, hy]

lemma equal_self (x : Double) : equal x x = !isNaN x := by
  rw [Bool.eq_iff_iff, equal_iff, Bool.not_eq_true']
  simp

lemma equal_comm (x y : Double) : equal x y = equal y x := by
  rw [Bool.eq_iff_iff, equal_iff, equal_iff]
  constructor <;> exact fun h => ⟨h.2.1, h.1, h.2.2.symm⟩

lemma equal_trans (h : equal x y = true) (h' : equal y z = true) : equal x z = true := by
  obtain ⟨hx, -, hxy⟩ := equal_iff.mp h
  obtain ⟨-, hz, hyz⟩ := equal_iff.mp h'
  exact equal_iff.mpr ⟨hx, hz, hxy.trans hyz⟩

lemma natAbs_rank (x : Double) : (rank x).natAbs = magnitude x := by
  unfold rank
  split <;> omega

lemma isNegative_eq (h : rank x ≠ 0) : isNegative x = decide (rank x < 0) := by
  unfold rank at *
  cases hx : isNegative x with
  | true =>
    rw [hx, if_pos rfl] at h
    exact (decide_eq_true (by rw [if_pos rfl]; omega)).symm
  | false => exact (decide_eq_false (by simp)).symm

/-- Doubles at the same place in the row of all doubles are the same, unless they are zeros. -/
lemma eq_of_rank_eq (h : rank x = rank y) (hzero : rank x ≠ 0) : x = y := by
  rw [← ofMagnitude_magnitude x, ← ofMagnitude_magnitude y, ← natAbs_rank x, ← natAbs_rank y,
    isNegative_eq hzero, isNegative_eq (h ▸ hzero), h]

/-- Different integers that convert to the same double are so far from zero that not every integer
is a double. -/
lemma far_of_rank_ofInt_eq {m n : Int} (h : rank (ofInt m) = rank (ofInt n)) (hne : m ≠ n) :
    2 * binade ≤ m.natAbs := by
  by_contra hlt
  exact hne (eq_of_rank_ofInt_eq (Nat.lt_of_not_le hlt) h)

/-- Different integers that equal the same double convert to it. -/
lemma far_of_equal_ofInt {m n : Int} (hm : equal (ofInt m) x = true)
    (hn : equal (ofInt n) x = true) (hne : m ≠ n) :
    2 * binade ≤ m.natAbs ∧ 2 * binade ≤ n.natAbs ∧ ofInt m = ofInt n ∧ x = ofInt m := by
  obtain ⟨-, -, hrank⟩ := equal_iff.mp hm
  obtain ⟨-, -, hrank'⟩ := equal_iff.mp hn
  have hsame : rank (ofInt m) = rank (ofInt n) := hrank.trans hrank'.symm
  have hfar := far_of_rank_ofInt_eq hsame hne
  have hzero : rank (ofInt m) ≠ 0 := by
    intro hzero
    have hzero' : rank (ofInt 0) = rank (ofInt m) := by rw [hzero]; rfl
    obtain rfl : 0 = m := eq_of_rank_ofInt_eq (by decide) hzero'
    exact absurd hfar (by decide)
  exact ⟨hfar, far_of_rank_ofInt_eq hsame.symm hne.symm, eq_of_rank_eq hsame hzero,
    (eq_of_rank_eq hrank hzero).symm⟩

end Binary64

namespace Value

open Binary64

/-! ## Reflexivity and symmetry -/

mutual

/-- Whether a double that is no number occurs in the value, at any depth. -/
def hasNaN : Value → Bool
  | float x => isNaN x
  | list _ vs => anyHasNaN vs
  | int _ | str .. | bool _ | nil | closure .. | primitive _ => false

/-- Whether a double that is no number occurs in one of the values. -/
def anyHasNaN : List Value → Bool
  | [] => false
  | v :: vs => v.hasNaN || anyHasNaN vs

end

lemma equalAll_self (vs : List Value) : equalAll vs vs = !anyHasNaN vs := by
  induction vs using values_induction with
  | nil => rfl
  | scalar v vs hv ih =>
    rw [equalAll, anyHasNaN, ih, Bool.not_or]
    congr 1
    cases v with
    | list => cases hv
    | float x => exact Binary64.equal_self x
    | _ => simp [equal, same, hasNaN]
  | list id items vs ihItems ih =>
    rw [equalAll, anyHasNaN, ih, Bool.not_or, equal, hasNaN, ihItems]

/-- A value equals itself, unless there is a NaN in it. -/
theorem equal_self (v : Value) : v.equal v = !v.hasNaN := by
  simpa [equalAll, anyHasNaN] using equalAll_self [v]

lemma equalAll_comm (vs ws : List Value) : equalAll vs ws = equalAll ws vs := by
  induction vs using values_induction generalizing ws with
  | nil => cases ws <;> rfl
  | scalar v vs hv ih =>
    rcases ws with _ | ⟨w, ws⟩
    · rfl
    · rw [equalAll, equalAll, ih]
      congr 1
      cases v with
      | list => cases hv
      | float x => cases w <;> first | rfl | exact Binary64.equal_comm _ _
      | _ => cases w <;> first | rfl | exact BEq.comm
  | list id items vs ihItems ih =>
    rcases ws with _ | ⟨w, ws⟩
    · rfl
    · rw [equalAll, equalAll, ih]
      congr 1
      cases w with
      | list => rw [equal, equal, ihItems]
      | _ => rfl

/-- Equality is symmetric. -/
theorem equal_comm (v w : Value) : v.equal w = w.equal v := by
  simpa [equalAll] using equalAll_comm [v] [w]

/-! ## Chains of equal values -/

/-- What stands at a place in the value.  A place says which element to take of each of the lists
on the way to it. -/
def at? (v : Value) : List Nat → Option Value
  | [] => some v
  | k :: place => v.items?.bind fun vs => vs[k]?.bind (·.at? place)

/-- Wherever an integer stands in both values, it is the same one. -/
def IntsAgree (v w : Value) : Prop :=
  ∀ place m n, v.at? place = some (.int m) → w.at? place = some (.int n) → m = n

variable {u v w a b c : Value} {us vs ws : List Value} {m n : Int64}

lemma exists_cons_of_equalAll (h : equalAll (v :: vs) ws = true) :
    ∃ w ws', ws = w :: ws' ∧ v.equal w = true ∧ equalAll vs ws' = true := by
  rcases ws with _ | ⟨w, ws⟩
  · cases h
  · rw [equalAll, Bool.and_eq_true] at h
    exact ⟨w, ws, rfl, h.1, h.2⟩

lemma exists_list_of_equal {i : Identity} (h : (list i vs).equal w = true) :
    ∃ j ws, w = list j ws ∧ equalAll vs ws = true := by
  cases w with
  | list j ws =>
    rw [equal] at h
    exact ⟨j, ws, rfl, h⟩
  | _ => cases h

/-- The elements of equal lists are equal. -/
lemma exists_getElem?_of_equalAll (h : equalAll vs ws = true) {k : Nat} (hv : vs[k]? = some v) :
    ∃ w, ws[k]? = some w ∧ v.equal w = true := by
  induction vs generalizing ws k with
  | nil => cases hv
  | cons first vs ih =>
    obtain ⟨w, ws, rfl, hfirst, hrest⟩ := exists_cons_of_equalAll h
    cases k with
    | zero =>
      cases hv
      exact ⟨w, rfl, hfirst⟩
    | succ k => exact ih hrest hv

/-- What is neither a number nor a list can be replaced by what equals it. -/
lemma equal_left_eq (hnumber : u.number? = none) (hitems : u.items? = none)
    (h : u.equal v = true) (w : Value) : u.equal w = v.equal w := by
  cases u with
  | int | float => cases hnumber
  | list => cases hitems
  | nil => cases v <;> first | rfl | cases h
  | str | bool | closure | primitive =>
    cases v <;> simp only [equal, same, beq_iff_eq, Bool.false_eq_true] at h
    subst h
    cases w <;> rfl

/-- Equality goes on from a value that is no list, unless integers are in the way. -/
lemma equal_trans_of_scalar (hu : u.items? = none) (h : u.equal v = true) (h' : v.equal w = true)
    (hints : u.IntsAgree w) : u.equal w = true := by
  cases u with
  | list => cases hu
  | int m =>
    cases v with
    | int k =>
      obtain rfl : m = k := by simpa [equal, same] using h
      exact h'
    | float y =>
      cases w with
      | int n => simpa [equal, same] using hints [] m n rfl rfl
      | float z => exact Binary64.equal_trans h h'
      | _ => cases h'
    | _ => cases h
  | float x =>
    cases v with
    | int k =>
      cases w with
      | int n =>
        obtain rfl : k = n := by simpa [equal, same] using h'
        exact h
      | float z => exact Binary64.equal_trans ((Binary64.equal_comm _ _).trans h) h'
      | _ => cases h'
    | float y =>
      cases w with
      | int n => exact Binary64.equal_trans h' ((Binary64.equal_comm _ _).trans h)
      | float z => exact Binary64.equal_trans h h'
      | _ => cases h'
    | _ => cases h
  | _ =>
    rw [equal_left_eq rfl rfl h]
    exact h'

lemma equalAll_trans (h : equalAll us vs = true) (h' : equalAll vs ws = true)
    (hints : ∀ (k : Nat) (u w : Value), us[k]? = some u → ws[k]? = some w → u.IntsAgree w) :
    equalAll us ws = true := by
  induction us using values_induction generalizing vs ws with
  | nil =>
    cases vs with
    | nil => exact h'
    | cons => cases h
  | scalar u us hu ih =>
    obtain ⟨v, vs, rfl, hfirst, hrest⟩ := exists_cons_of_equalAll h
    obtain ⟨w, ws, rfl, hfirst', hrest'⟩ := exists_cons_of_equalAll h'
    rw [equalAll, Bool.and_eq_true]
    exact ⟨equal_trans_of_scalar hu hfirst hfirst' (hints 0 u w rfl rfl),
      ih hrest hrest' fun k => hints (k + 1)⟩
  | list id items us ihItems ih =>
    obtain ⟨v, vs, rfl, hfirst, hrest⟩ := exists_cons_of_equalAll h
    obtain ⟨w, ws, rfl, hfirst', hrest'⟩ := exists_cons_of_equalAll h'
    obtain ⟨i, inner, rfl, hitems⟩ := exists_list_of_equal hfirst
    obtain ⟨j, inner', rfl, hitems'⟩ := exists_list_of_equal hfirst'
    rw [equalAll, equal, Bool.and_eq_true]
    refine ⟨ihItems hitems hitems' ?_, ih hrest hrest' fun k => hints (k + 1)⟩
    intro k u w hu hw place m n hm hn
    refine hints 0 _ _ rfl rfl (k :: place) m n ?_ ?_
    · simpa [at?, items?, hu] using hm
    · simpa [at?, items?, hw] using hn

/-- What stands at the same place in equal values is equal. -/
lemma exists_at?_of_equal (h : a.equal c = true) {place : List Nat} (hu : a.at? place = some u) :
    ∃ w, c.at? place = some w ∧ u.equal w = true := by
  induction place generalizing a c with
  | nil =>
    cases hu
    exact ⟨c, rfl, h⟩
  | cons k place ih =>
    cases a with
    | list i vs =>
      obtain ⟨j, ws, rfl, hequal⟩ := exists_list_of_equal h
      obtain ⟨v, hv, hinner⟩ : ∃ v, vs[k]? = some v ∧ v.at? place = some u :=
        Option.bind_eq_some_iff.mp hu
      obtain ⟨w, hw, hfirst⟩ := exists_getElem?_of_equalAll hequal hv
      obtain ⟨w', hw', hequal'⟩ := ih hfirst hinner
      exact ⟨w', by simpa [at?, items?, hw] using hw', hequal'⟩
    | _ => cases hu

/-- In equal values, the same integers stand at the same places. -/
lemma intsAgree_of_equal (h : a.equal c = true) : a.IntsAgree c := by
  intro place m n hm hn
  obtain ⟨w, hw, hequal⟩ := exists_at?_of_equal h hm
  obtain rfl : w = int n := Option.some.inj (hw.symm.trans hn)
  simpa [equal, same] using hequal

/-- Equality goes on from a value to the next one, unless different integers stand at the same place
in the first value and in the last one. -/
theorem equal_iff_of_equal (h : a.equal b = true) (h' : b.equal c = true) :
    a.equal c = true ↔ a.IntsAgree c := by
  refine ⟨intsAgree_of_equal, fun hints => ?_⟩
  have hab : equalAll [a] [b] = true := by simpa [equalAll] using h
  have hbc : equalAll [b] [c] = true := by simpa [equalAll] using h'
  have hac : equalAll [a] [c] = true := by
    refine equalAll_trans hab hbc ?_
    intro k u w hu hw
    cases k with
    | zero =>
      cases hu
      cases hw
      exact hints
    | succ k => cases hu
  simpa [equalAll] using hac

/-- Where different integers stand in two values, both of which equal a third one, that one has the
double to which both convert, and they are far from zero. -/
theorem float_of_different_ints (h : a.equal b = true) (h' : b.equal c = true) {place : List Nat}
    (hm : a.at? place = some (.int m)) (hn : c.at? place = some (.int n)) (hne : m ≠ n) :
    2 * binade ≤ m.toInt.natAbs ∧ 2 * binade ≤ n.toInt.natAbs ∧ ofInt m.toInt = ofInt n.toInt ∧
      b.at? place = some (.float (ofInt m.toInt)) := by
  obtain ⟨v, hv, hfirst⟩ := exists_at?_of_equal h hm
  obtain ⟨w, hw, hlast⟩ := exists_at?_of_equal h' hv
  obtain rfl : w = int n := Option.some.inj (hw.symm.trans hn)
  cases v with
  | int k =>
    have hleft : m = k := by simpa [equal, same] using hfirst
    have hright : k = n := by simpa [equal, same] using hlast
    exact absurd (hleft.trans hright) hne
  | float x =>
    have hne' : m.toInt ≠ n.toInt := fun heq => hne (Int64.toInt_inj.mp heq)
    obtain ⟨hfar, hfar', hsame, rfl⟩ := far_of_equal_ofInt hfirst hlast hne'
    exact ⟨hfar, hfar', hsame, hv⟩
  | _ => cases hfirst

/-- Equality is reflexive on values without a NaN, and it is symmetric.  If `a` equals `b` and `b`
equals `c`, then `a` equals `c` unless different integers stand at the same place in `a` and in `c`.
In that case `a` does not equal `c`, these integers are at least `2 ^ 53` in magnitude, and they
convert to the same double, which stands at that place in `b`. -/
theorem equal_equivalence_but_rounded :
    (∀ a : Value, a.hasNaN = false → a.equal a = true) ∧
    (∀ a b : Value, a.equal b = true → b.equal a = true) ∧
    ∀ a b c : Value, a.equal b = true → b.equal c = true →
      (a.equal c = true ↔ ∀ place m n,
        a.at? place = some (.int m) → c.at? place = some (.int n) → m = n) ∧
      ∀ place m n, a.at? place = some (.int m) → c.at? place = some (.int n) → m ≠ n →
        2 ^ 53 ≤ m.toInt.natAbs ∧ 2 ^ 53 ≤ n.toInt.natAbs ∧
          ofInt m.toInt = ofInt n.toInt ∧ b.at? place = some (.float (ofInt m.toInt)) := by
  refine ⟨fun a ha => ?_, fun a b h => ?_, fun a b c h h' => ⟨equal_iff_of_equal h h', ?_⟩⟩
  · rw [equal_self, ha]
    rfl
  · rwa [equal_comm]
  · intro place m n hm hn hne
    exact float_of_different_ints h h' hm hn hne

/-- The integers `2 ^ 53` and `2 ^ 53 + 1` stand at the same place in two lists that equal a third
one, in which the double `2 ^ 53` stands there; a chain without integers at both ends goes on. -/
theorem equal_equivalence_but_rounded_lists :
    let a := list (.fresh 0) [int 9007199254740992, float 1]
    let b := list (.fresh 1) [float 9007199254740992, int 1]
    let c := list (.fresh 2) [int 9007199254740993, float 1]
    a.hasNaN = false ∧ a.equal a = true ∧ a.equal b = true ∧ b.equal a = true ∧
      b.equal c = true ∧ a.at? [0] = some (.int 9007199254740992) ∧
      c.at? [0] = some (.int 9007199254740993) ∧ ¬ a.equal c = true ∧
      2 ^ 53 ≤ (9007199254740993 : Int64).toInt.natAbs ∧
      ofInt 9007199254740992 = ofInt 9007199254740993 ∧
      b.at? [0] = some (.float (ofInt 9007199254740992)) ∧
      (float 1).equal (int 1) = true ∧ (int 1).equal (float 1) = true ∧
      (float 1).equal (float 1) = true := by
  intro a b c
  obtain ⟨hrefl, hsymm, hchain⟩ := equal_equivalence_but_rounded
  have ha : a.hasNaN = false := by decide +kernel
  have hab : a.equal b = true := by decide +kernel
  have hbc : b.equal c = true := by decide +kernel
  have hm : a.at? [0] = some (.int 9007199254740992) := rfl
  have hn : c.at? [0] = some (.int 9007199254740993) := rfl
  have hne : (9007199254740992 : Int64) ≠ 9007199254740993 := by decide
  obtain ⟨hiff, hfar⟩ := hchain a b c hab hbc
  obtain ⟨-, hfar, hsame, hthere⟩ := hfar [0] _ _ hm hn hne
  have hone : (float 1).equal (int 1) = true := by decide +kernel
  have hone' : (int 1).equal (float 1) = true := by decide +kernel
  refine ⟨ha, hrefl a ha, hab, hsymm a b hab, hbc, hm, hn, fun hac => hne (hiff.mp hac _ _ _ hm hn),
    hfar, hsame, hthere, hone, hone', (hchain _ _ _ hone hone').1.mpr ?_⟩
  intro place m n hfloat
  cases place <;> cases hfloat

/-- The integers `2 ^ 53` and `2 ^ 53 + 1` both convert to the double `2 ^ 53`. -/
theorem equal_not_transitive :
    let a := int 9007199254740992
    let b := float 9007199254740992
    let c := int 9007199254740993
    a.hasNaN = false ∧ b.hasNaN = false ∧ c.hasNaN = false ∧
      a.equal b = true ∧ b.equal c = true ∧ a.equal c = false := by
  decide +kernel

end Value

end SmallLisp
