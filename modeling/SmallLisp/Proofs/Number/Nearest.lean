import Mathlib
import SmallLisp.Number.Decimal

/-!
# The nearest double

Every finite magnitude is `m + e * binade` for a significand `m` and an exponent `e`, and its value
is then `m * 2 ^ e` units (`units_add`).  Two facts follow.  Values increase with the magnitude, so
that a fraction rounds to one magnitude at most (`RoundsTo.unique`); and the rounded division that
`nearest` makes gives a magnitude that the fraction rounds to (`roundsTo_unboundedNearest`).
Together they say that `nearest` finds the magnitude that `RoundsTo` describes (`nearest_eq`), and
that it increases with the number (`nearest_mono`).
-/

namespace SmallLisp

/-! ## Rounded division -/

/-- A rounded quotient is off by half a divisor at most, and by no less than that only if it is
even. -/
lemma roundQuotient_spec (a : Nat) {b : Nat} (hb : 0 < b) :
    (2 * (roundQuotient a b * b) < 2 * a + b ∧ 2 * a < 2 * (roundQuotient a b * b) + b) ∨
      (roundQuotient a b % 2 = 0 ∧ 2 * (roundQuotient a b * b) ≤ 2 * a + b ∧
        2 * a ≤ 2 * (roundQuotient a b * b) + b) := by
  have hdiv : a / b * b + a % b = a := Nat.div_add_mod' a b
  have hmod : a % b < b := Nat.mod_lt a hb
  unfold roundQuotient
  simp only
  split
  · omega
  · split
    · rw [Nat.add_one_mul (a / b) b]
      omega
    · rcases Nat.mod_two_eq_zero_or_one (a / b) with heven | hodd
      · rw [heven, Nat.add_zero]
        omega
      · rw [hodd, Nat.add_one_mul (a / b) b]
        omega

lemma div_le_roundQuotient (a b : Nat) : a / b ≤ roundQuotient a b := by
  unfold roundQuotient
  simp only
  split
  · exact Nat.le_refl _
  · split <;> omega

lemma roundQuotient_le_succ (a b : Nat) : roundQuotient a b ≤ a / b + 1 := by
  unfold roundQuotient
  simp only
  split
  · exact Nat.le_succ _
  · split <;> omega

namespace Binary64

/-! ## Values of magnitudes -/

variable {m e : Nat}

/-- The value of a magnitude in terms of its significand and its exponent.  The end of one binade
is the beginning of the next one. -/
lemma units_add (hm : m ≤ 2 * binade) (he : e = 0 ∨ binade ≤ m) :
    units (m + e * binade) = m * 2 ^ e := by
  unfold units
  split
  · next hsmall =>
    obtain rfl : e = 0 := by
      unfold binade at *
      omega
    simp
  · next hlarge =>
    rw [Nat.shiftLeft_eq]
    rcases Nat.lt_or_eq_of_le hm with hlt | rfl
    · have hbinade : binade ≤ m := by
        unfold binade at *
        omega
      have hmod : (m + e * binade) % binade = m - binade := by
        unfold binade at *
        omega
      have hdiv : (m + e * binade) / binade = e + 1 := by
        unfold binade at *
        omega
      rw [hmod, hdiv, Nat.sub_add_cancel hbinade, Nat.add_sub_cancel]
    · have hmod : (2 * binade + e * binade) % binade = 0 := by
        unfold binade
        omega
      have hdiv : (2 * binade + e * binade) / binade = e + 2 := by
        unfold binade
        omega
      rw [hmod, hdiv, Nat.zero_add, show e + 2 - 1 = e + 1 from rfl, Nat.pow_succ]
      rw [Nat.mul_comm (2 ^ e) 2, ← Nat.mul_assoc, Nat.mul_comm binade 2]

/-- Every magnitude has a significand and an exponent. -/
lemma exists_coordinates (k : Nat) :
    ∃ m e, k = m + e * binade ∧ m < 2 * binade ∧ (e = 0 ∨ binade ≤ m) := by
  by_cases h : k < binade
  · exact ⟨k, 0, by simp, by omega, .inl rfl⟩
  · refine ⟨k % binade + binade, k / binade - 1, ?_, ?_, .inr (Nat.le_add_left _ _)⟩
    · unfold binade at *
      omega
    · unfold binade at *
      omega

lemma units_succ_add (hm : m < 2 * binade) (he : e = 0 ∨ binade ≤ m) :
    units (m + e * binade + 1) = (m + 1) * 2 ^ e := by
  rw [Nat.add_right_comm]
  exact units_add hm (he.imp_right Nat.le_succ_of_le)

lemma units_succ_ge (hm : m ≤ 2 * binade) (he : e = 0 ∨ binade ≤ m) :
    (m + 1) * 2 ^ e ≤ units (m + e * binade + 1) := by
  rcases Nat.lt_or_eq_of_le hm with hlt | rfl
  · exact Nat.le_of_eq (units_succ_add hlt he).symm
  · -- The next magnitude is in the next binade, where the spacing is twice as large.
    have hnext : 2 * binade + e * binade + 1 = (binade + 1) + (e + 1) * binade := by
      unfold binade
      omega
    have hbinade : binade + 1 ≤ 2 * binade := by decide
    rw [hnext, units_add hbinade (.inr (Nat.le_succ _)), Nat.pow_succ, Nat.mul_comm (2 ^ e) 2,
      ← Nat.mul_assoc]
    exact Nat.mul_le_mul_right _ (by omega)

/-- The value before a magnitude, unless that is the first one of a binade. -/
lemma units_pred (hm : m ≤ 2 * binade) (he : e = 0 ∨ binade < m) :
    units (m + e * binade - 1) + 2 ^ e = m * 2 ^ e ∨ m + e * binade = 0 := by
  cases m with
  | zero =>
    obtain rfl : e = 0 := by omega
    exact .inr (by simp)
  | succ m =>
    rw [Nat.add_right_comm, Nat.add_sub_cancel,
      units_add (by omega) (he.imp_right Nat.le_of_lt_succ), ← Nat.add_one_mul]
    exact .inl rfl

/-- Values increase with the magnitude. -/
theorem units_strictMono : StrictMono units := by
  apply strictMono_nat_of_lt_succ
  intro k
  obtain ⟨m, e, rfl, hm, he⟩ := exists_coordinates k
  rw [units_succ_add hm he, units_add (Nat.le_of_lt hm) he, Nat.succ_mul]
  exact Nat.lt_add_of_pos_right (Nat.two_pow_pos e)

lemma units_pos {k : Nat} (hk : 0 < k) : 0 < units k := by
  have h := units_strictMono hk
  omega

end Binary64

namespace Decimal

open Binary64

/-! ## Rounding to one magnitude only -/

variable {j k num den : Nat}

lemma low_le_high (k den : Nat) :
    (units (k - 1) + units k) * den ≤ (units k + units (k + 1)) * den := by
  have hprev : units (k - 1) ≤ units k := units_strictMono.monotone (Nat.sub_le k 1)
  have hnext : units k ≤ units (k + 1) := units_strictMono.monotone (Nat.le_succ k)
  exact Nat.mul_le_mul_right den (Nat.add_le_add hprev hnext)

lemma RoundsTo.low_le (h : RoundsTo k num den) : (units (k - 1) + units k) * den ≤ 2 * num := by
  have hle := low_le_high k den
  rcases h with h | ⟨-, h⟩ <;> omega

lemma RoundsTo.le_high (h : RoundsTo k num den) : 2 * num ≤ (units k + units (k + 1)) * den := by
  have hle := low_le_high k den
  rcases h with h | ⟨-, h⟩ <;> omega

/-- For an even magnitude, the middles to its neighbours round to it too. -/
lemma roundsTo_of_le (heven : k % 2 = 0) (hlow : (units (k - 1) + units k) * den ≤ 2 * num)
    (hhigh : 2 * num ≤ (units k + units (k + 1)) * den) : RoundsTo k num den := by
  unfold RoundsTo
  simp only
  omega

/-- A fraction between two magnitudes does not round to both. -/
lemma not_roundsTo_of_lt (hden : 0 < den) (hjk : j < k) (hj : RoundsTo j num den) :
    ¬ RoundsTo k num den := by
  intro hk
  have hsum : units j + units (j + 1) ≤ units (k - 1) + units k := by
    have hprev : units j ≤ units (k - 1) := units_strictMono.monotone (by omega)
    have hnext : units (j + 1) ≤ units k := units_strictMono.monotone hjk
    exact Nat.add_le_add hprev hnext
  have hmiddle := Nat.mul_le_mul_right den hsum
  have hhigh := hj.le_high
  have hlow := hk.low_le
  -- The fraction is the middle of both, so that they are neighbours and both of them even.
  have heq : units j + units (j + 1) = units (k - 1) + units k :=
    Nat.eq_of_mul_eq_mul_right hden (by omega)
  have hnext : units (j + 1) = units k := by
    have hprev : units j ≤ units (k - 1) := units_strictMono.monotone (by omega)
    have hnext : units (j + 1) ≤ units k := units_strictMono.monotone hjk
    omega
  have hneighbours : j + 1 = k := units_strictMono.injective hnext
  rcases hj with hj | ⟨hevenj, -⟩
  · omega
  · rcases hk with hk | ⟨hevenk, -⟩ <;> omega

/-- A fraction rounds to one magnitude at most. -/
theorem RoundsTo.unique (hden : 0 < den) (hj : RoundsTo j num den) (hk : RoundsTo k num den) :
    j = k := by
  rcases Nat.lt_trichotomy j k with hlt | heq | hgt
  · exact absurd hk (not_roundsTo_of_lt hden hlt hj)
  · exact heq
  · exact absurd hj (not_roundsTo_of_lt hden hgt hk)

/-! ## The magnitude that rounded division finds -/

/-- The rounded quotient of a fraction by the spacing of its binade, as a significand, gives a
magnitude that the fraction rounds to. -/
theorem roundsTo_roundQuotient {e : Nat} (hden : 0 < den)
    (he : e = 0 ∨ binade * (den * 2 ^ e) ≤ num) (hnum : num < 2 * binade * (den * 2 ^ e)) :
    RoundsTo (roundQuotient num (den * 2 ^ e) + e * binade) num den := by
  have hstep : 0 < den * 2 ^ e := Nat.mul_pos hden (Nat.two_pow_pos e)
  have hspec := roundQuotient_spec num hstep
  have hle : roundQuotient num (den * 2 ^ e) ≤ 2 * binade := by
    have hlt : num / (den * 2 ^ e) < 2 * binade := (Nat.div_lt_iff_lt_mul hstep).mpr hnum
    have hsucc := roundQuotient_le_succ num (den * 2 ^ e)
    omega
  have hge : e = 0 ∨ binade ≤ roundQuotient num (den * 2 ^ e) := by
    refine he.imp_right ?_
    intro h
    have hdiv : binade ≤ num / (den * 2 ^ e) := (Nat.le_div_iff_mul_le hstep).mpr h
    exact Nat.le_trans hdiv (div_le_roundQuotient _ _)
  generalize roundQuotient num (den * 2 ^ e) = r at *
  have hvalue : units (r + e * binade) * den = r * (den * 2 ^ e) := by
    rw [units_add hle hge, Nat.mul_assoc, Nat.mul_comm (2 ^ e) den]
  have hnext : r * (den * 2 ^ e) + den * 2 ^ e ≤ units (r + e * binade + 1) * den := by
    have h := Nat.mul_le_mul_right den (units_succ_ge hle hge)
    rwa [Nat.mul_assoc, Nat.mul_comm (2 ^ e) den, Nat.add_one_mul] at h
  have hlow : (units (r + e * binade - 1) + units (r + e * binade)) * den =
      units (r + e * binade - 1) * den + r * (den * 2 ^ e) := by
    rw [Nat.add_mul, hvalue]
  have hhigh : (units (r + e * binade) + units (r + e * binade + 1)) * den =
      r * (den * 2 ^ e) + units (r + e * binade + 1) * den := by
    rw [Nat.add_mul, hvalue]
  have heven : (r + e * binade) % 2 = r % 2 := by
    unfold binade
    omega
  have hprev : units (r + e * binade - 1) * den + den * 2 ^ e ≤ r * (den * 2 ^ e) ∨
      (r % 2 = 0 ∧ units (r + e * binade - 1) * den + r * (den * 2 ^ e) ≤ 2 * num) := by
    by_cases hfirst : e = 0 ∨ binade < r
    · rcases units_pred hle hfirst with hpred | hzero
      · left
        rw [Nat.mul_comm den, ← Nat.add_mul, hpred, Nat.mul_assoc]
      · obtain rfl : r = 0 := by omega
        rw [hzero]
        exact .inr ⟨rfl, by simp [units, binade]⟩
    · -- The spacing below the first magnitude of a binade is half that above it.
      obtain rfl : r = binade := by omega
      have hmono : units (binade + e * binade - 1) ≤ units (binade + e * binade) :=
        units_strictMono.monotone (Nat.sub_le _ 1)
      have hbelow := Nat.mul_le_mul_right den hmono
      exact .inr ⟨rfl, by omega⟩
  rcases hprev with hprev | ⟨hr, hprev⟩
  · rcases hspec with ⟨h₁, h₂⟩ | ⟨hr, h₁, h₂⟩
    · exact .inl ⟨by omega, by omega⟩
    · exact roundsTo_of_le (by omega) (by omega) (by omega)
  · exact roundsTo_of_le (by omega) (by omega) (by omega)

/-- The magnitude that `nearest` finds before it is cut off at infinity. -/
def unboundedNearest (num den : Nat) : Nat :=
  let exponent := (num * unity / den).log2 - 52
  roundQuotient (num * unity) (den * 2 ^ exponent) + exponent * binade

lemma nearest_eq_min (num den : Nat) :
    nearest num den = min (unboundedNearest num den) infinity := by
  simp only [nearest, unboundedNearest, Nat.shiftLeft_eq]

/-- The fraction rounds to the magnitude that `nearest` finds. -/
theorem roundsTo_unboundedNearest (num : Nat) (hden : 0 < den) :
    RoundsTo (unboundedNearest num den) (num * unity) den := by
  unfold unboundedNearest
  simp only
  generalize num * unity = scaled
  generalize he : (scaled / den).log2 - 52 = e
  have hlow : e = 0 ∨ binade * (den * 2 ^ e) ≤ scaled := by
    by_cases hzero : e = 0
    · exact .inl hzero
    · have hquotient : scaled / den ≠ 0 := by
        intro h
        rw [h, Nat.log2_zero] at he
        omega
      have hlog : 2 ^ (52 + e) ≤ scaled / den := by
        have hself := Nat.log2_self_le hquotient
        rwa [show (scaled / den).log2 = 52 + e by omega] at hself
      have hmul := (Nat.le_div_iff_mul_le hden).mp hlog
      rw [Nat.pow_add, Nat.mul_assoc, Nat.mul_comm (2 ^ e) den] at hmul
      exact .inr hmul
  have hhigh : scaled < 2 * binade * (den * 2 ^ e) := by
    have hlog : scaled / den < 2 ^ (53 + e) := by
      refine Nat.lt_of_lt_of_le Nat.lt_log2_self ?_
      exact Nat.pow_le_pow_right (by decide) (by omega)
    have hmul := (Nat.div_lt_iff_lt_mul hden).mp hlog
    rw [Nat.pow_add, Nat.mul_assoc, Nat.mul_comm (2 ^ e) den] at hmul
    exact hmul
  exact roundsTo_roundQuotient hden hlow hhigh

/-- The nearest double is the one that the fraction rounds to. -/
theorem nearest_eq (hden : 0 < den) (hk : k < infinity) (h : RoundsTo k (num * unity) den) :
    nearest num den = k := by
  rw [nearest_eq_min, (roundsTo_unboundedNearest num hden).unique hden h]
  exact Nat.min_eq_left (Nat.le_of_lt hk)

/-- A larger fraction rounds to a larger magnitude, or to the same one. -/
lemma RoundsTo.mono {num' : Nat} (hden : 0 < den) (hnum : num ≤ num') (hj : RoundsTo j num den)
    (hk : RoundsTo k num' den) : j ≤ k := by
  by_contra hlt
  have hkj : k < j := Nat.lt_of_not_le hlt
  have hsum : units k + units (k + 1) ≤ units (j - 1) + units j := by
    have hprev : units k ≤ units (j - 1) := units_strictMono.monotone (by omega)
    have hnext : units (k + 1) ≤ units j := units_strictMono.monotone hkj
    exact Nat.add_le_add hprev hnext
  have hmiddle := Nat.mul_le_mul_right den hsum
  have hhigh := hk.le_high
  have hlow := hj.low_le
  obtain rfl : num = num' := by omega
  exact Nat.ne_of_gt hkj (hj.unique hden hk)

/-- The nearest double increases with the number. -/
theorem nearest_mono {num' : Nat} (hden : 0 < den) (hnum : num ≤ num') :
    nearest num den ≤ nearest num' den := by
  rw [nearest_eq_min, nearest_eq_min]
  refine min_le_min_right infinity ?_
  exact (roundsTo_unboundedNearest num hden).mono hden (Nat.mul_le_mul_right unity hnum)
    (roundsTo_unboundedNearest num' hden)

end Decimal

end SmallLisp
