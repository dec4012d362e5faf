import Mathlib
import SmallLisp.Proofs.Evaluation.Primitive
import SmallLisp.Proofs.Number.Literal

/-!
# Rounding integers

Rounding an integer to tens, hundreds and so on goes to the nearest multiple of a power of ten, and
from the middle between two multiples to the even one (`IsNearestMultiple`).  There is exactly one
such multiple, and it is what `roundToMultiple` computes, on both sides of zero.

The procedure `round` refuses a multiple that does not fit an integer.  Steps that do not fit an
integer themselves round everything to zero, without a look at the nearest multiple.  For all but
one of these steps that is zero.  The exception is `10 ^ 19`, the smallest of them: half of it does
fit, and beyond its half the nearest multiple is not zero (`callPrimitive_round`).
-/

namespace SmallLisp

/-! ## The nearest multiple -/

/-- The multiple of `step` that is nearest to `n`.  If another one is as near, then this is the even
one of the two. -/
def IsNearestMultiple (step : Nat) (n r : Int) : Prop :=
  ∃ q : Int, r = q * step ∧ ∀ p : Int, p ≠ q →
    (n - q * step).natAbs < (n - p * step).natAbs ∨
      (n - q * step).natAbs = (n - p * step).natAbs ∧ Even q

namespace IsNearestMultiple

variable {step : Nat} {n r r' q : Int}

/-- A multiple is the nearest one if it is off by less than half a step, or by no more than that and
even. -/
lemma of_half (h : 2 * (n - q * step).natAbs < step ∨ 2 * (n - q * step).natAbs ≤ step ∧ Even q) :
    IsNearestMultiple step n (q * step) := by
  refine ⟨q, rfl, fun p hp => ?_⟩
  -- another multiple is a step away from this one, or more
  have hstep : step ≤ (p * step - q * step).natAbs := by
    rw [← sub_mul, Int.natAbs_mul, Int.natAbs_natCast]
    exact Nat.le_mul_of_pos_left step (Int.natAbs_pos.mpr (sub_ne_zero.mpr hp))
  rcases h with h | ⟨h, heven⟩
  · left
    omega
  · have hle : (n - q * step).natAbs ≤ (n - p * step).natAbs := by omega
    exact (Nat.lt_or_eq_of_le hle).imp_right fun heq => ⟨heq, heven⟩

/-- There is one nearest multiple at most: between two even ones there is another multiple. -/
lemma unique (h : IsNearestMultiple step n r) (h' : IsNearestMultiple step n r') : r = r' := by
  obtain ⟨q, rfl, hq⟩ := h
  obtain ⟨p, rfl, hp⟩ := h'
  by_contra hne
  have hpq : p ≠ q := by
    rintro rfl
    exact hne rfl
  have hle := (hq p hpq).elim le_of_lt fun h => h.1.le
  have hle' := (hp q hpq.symm).elim le_of_lt fun h => h.1.le
  have heq := le_antisymm hle hle'
  obtain ⟨m, hm⟩ : Even (q + p) :=
    ((hq p hpq).resolve_left heq.not_lt).2.add ((hp q hpq.symm).resolve_left heq.not_gt).2
  have hmiddle : n = m * step := by
    have hsum : (q + p) * (step : Int) = (m + m) * step := by rw [hm]
    rw [add_mul, add_mul] at hsum
    omega
  have hmq : m ≠ q := by
    rintro rfl
    omega
  have hnearer := (hq m hmq).elim le_of_lt fun h => h.1.le
  omega

/-- The nearest multiple is on the same side of zero, and as far away as that of the absolute
value. -/
lemma roundToMultiple (n : Int) (hstep : 0 < step) :
    IsNearestMultiple step n (SmallLisp.roundToMultiple n step) := by
  have hspec := roundQuotient_spec n.natAbs hstep
  set q := roundQuotient n.natAbs step with hq
  have hmultiple : SmallLisp.roundToMultiple n step = n.sign * q * step := by
    rw [SmallLisp.roundToMultiple, ← hq, Nat.cast_mul, mul_assoc]
  have hoff : (n - n.sign * q * step).natAbs = ((n.natAbs : Int) - (q * step : Nat)).natAbs := by
    rcases lt_trichotomy n 0 with hneg | rfl | hpos
    · rw [Int.sign_eq_neg_one_of_neg hneg, neg_one_mul, neg_mul, Nat.cast_mul]
      omega
    · have hzero : q = 0 := by simp [hq, roundQuotient, hstep]
      simp [hzero]
    · rw [Int.sign_eq_one_of_pos hpos, one_mul, Nat.cast_mul]
      omega
  rw [hmultiple]
  refine of_half ?_
  rw [hoff]
  rcases hspec with ⟨hlow, hhigh⟩ | ⟨heven, hlow, hhigh⟩
  · left
    omega
  · refine .inr ⟨by omega, ?_⟩
    exact Int.even_mul.mpr (.inr ((Int.even_coe_nat q).mpr (Nat.even_iff.mpr heven)))

end IsNearestMultiple

/-! ## The procedure `round` -/

namespace Answer

lemma int_toInt (n : Int64) : Answer.int n.toInt = .ok (.value (.int n)) := by
  simp [Answer.int, Integer.ofInt?_toInt]

lemma int_of_not_fits {n : Int} (h : ¬ Integer.Fits n) : Answer.int n = .error .overflow := by
  simp [Answer.int, Integer.ofInt?, h]

end Answer

namespace Arithmetic

variable {n digits : Int64} {r : Int}

/-- Zero is the nearest multiple of all powers of ten that do not fit an integer, with one
exception: for `10 ^ 19` it is so up to its half only. -/
lemma isNearestMultiple_zero {k : Nat} (hk : 18 < k)
    (hhalf : k = 19 → n.toInt.natAbs ≤ 5 * 10 ^ 18) : IsNearestMultiple (10 ^ k) n.toInt 0 := by
  have hn : 2 * n.toInt.natAbs ≤ 10 ^ k := by
    have hlow := n.le_toInt
    have hhigh := n.toInt_lt
    rcases Nat.lt_or_eq_of_le (Nat.succ_le_of_lt hk) with hlt | rfl
    · have hpow : 10 ^ 20 ≤ 10 ^ k := Nat.pow_le_pow_right (by decide) hlt
      omega
    · have hle := hhalf rfl
      omega
  rw [← zero_mul ((10 ^ k : Nat) : Int)]
  exact .of_half (.inr ⟨by simpa using hn, Even.zero⟩)

/-- Beyond the half of `10 ^ 19`, the nearest multiple does not fit an integer. -/
lemma not_fits_of_isNearestMultiple (hfar : 5 * 10 ^ 18 < n.toInt.natAbs)
    (hr : IsNearestMultiple (10 ^ 19) n.toInt r) : ¬ Integer.Fits r := by
  intro hfits
  obtain ⟨q, rfl, hq⟩ := hr
  obtain ⟨hlow, hhigh⟩ := hfits
  obtain rfl : q = 0 := by omega
  -- the multiple on the same side of zero is nearer
  rcases Int.natAbs_eq n.toInt with hsign | hsign
  · have hle := (hq 1 (by decide)).elim le_of_lt fun h => h.1.le
    omega
  · have hle := (hq (-1) (by decide)).elim le_of_lt fun h => h.1.le
    omega

/-- Rounding to a power of ten that fits an integer gives the nearest multiple, if that fits. -/
lemma roundInt_eq (hneg : digits.toInt < 0)
    (hfar : ¬ (digits.toInt = -19 ∧ 5 * 10 ^ 18 < n.toInt.natAbs))
    (hr : IsNearestMultiple (10 ^ digits.toInt.natAbs) n.toInt r) :
    roundInt n digits.toInt = Answer.int r := by
  unfold roundInt
  rw [if_neg (by omega)]
  split
  · next hwide =>
    have hzero : IsNearestMultiple (10 ^ digits.toInt.natAbs) n.toInt 0 :=
      isNearestMultiple_zero hwide (by omega)
    rw [hr.unique hzero]
    exact (Answer.int_toInt 0).symm
  · have hstep : 0 < 10 ^ digits.toInt.natAbs := Nat.pow_pos (by decide)
    rw [hr.unique (.roundToMultiple n.toInt hstep)]
    rfl

end Arithmetic

/-- The outcome of `round`, called with two integers. -/
lemma callPrimitive_round_eq [Machine] (call : FrameId → Value → List Value → EvalM Value)
    (env : FrameId) (n digits : Int64) :
    callPrimitive call env .round [.int n, .int digits] =
      Primitive.answer .round (Arithmetic.roundInt n digits.toInt) :=
  Primitive.callPrimitive_of_operation rfl rfl

/-- Called with an integer `i` and a number of digits `d`, the procedure `round` gives back `i` if
`d` is not negative.  Otherwise let `r` be the multiple of `10 ^ |d|` that is nearest to `i`; there
is exactly one.  The result is `r` if it fits an integer, and the call fails with an overflow if it
does not, unless `d` is `-19` and `i` is farther from zero than half of `10 ^ 19`.  In that case `r`
does not fit, and still the result is zero. -/
theorem callPrimitive_round [Machine] (call : FrameId → Value → List Value → EvalM Value)
    (env : FrameId) (s : State) (i d : Int64) :
    let outcome := callPrimitive call env .round [.int i, .int d] s
    (0 ≤ d.toInt → outcome = .ok (.int i) s) ∧
    (d.toInt < 0 → ∃ r, IsNearestMultiple (10 ^ d.toInt.natAbs) i.toInt r ∧
      (∀ r', IsNearestMultiple (10 ^ d.toInt.natAbs) i.toInt r' → r' = r) ∧
      (¬ (d.toInt = -19 ∧ 5 * 10 ^ 18 < i.toInt.natAbs) →
        (∀ n : Int64, n.toInt = r → outcome = .ok (.int n) s) ∧
        (¬ Integer.Fits r → ∃ fault, outcome = .error (.primitive .round fault) s ∧
          fault.message = "integer overflow")) ∧
      (d.toInt = -19 ∧ 5 * 10 ^ 18 < i.toInt.natAbs →
        ¬ Integer.Fits r ∧ outcome = .ok (.int 0) s)) := by
  intro outcome
  have houtcome : outcome = Primitive.answer .round (Arithmetic.roundInt i d.toInt) s :=
    congrFun (callPrimitive_round_eq call env i d) s
  refine ⟨fun hd => ?_, fun hd => ?_⟩
  · rw [houtcome, Arithmetic.roundInt, if_pos hd]
    rfl
  · have hr := IsNearestMultiple.roundToMultiple i.toInt
      (Nat.pow_pos (n := d.toInt.natAbs) (Nat.succ_pos 9))
    refine ⟨_, hr, fun r' hr' => hr'.unique hr, fun hfar => ⟨?_, fun hfits => ?_⟩, ?_⟩
    · intro n hn
      rw [houtcome, Arithmetic.roundInt_eq hd hfar hr, ← hn, Answer.int_toInt]
      rfl
    · refine ⟨.overflow, ?_, rfl⟩
      rw [houtcome, Arithmetic.roundInt_eq hd hfar hr, Answer.int_of_not_fits hfits]
      rfl
    · rintro ⟨hd, hfar⟩
      rw [hd] at hr ⊢
      exact ⟨Arithmetic.not_fits_of_isNearestMultiple hfar hr, by rw [houtcome, hd]; rfl⟩

section

open scoped Machine

/-- A half goes to the even multiple, also below zero; the largest integer is rounded to a multiple
of ten that does not fit. -/
theorem callPrimitive_round_half :
    let call := fun _ _ _ => EvalM.exhausted
    (-1 : Int64).toInt < 0 ∧
      callPrimitive call 0 .round [.int (-25), .int (-1)] {} = .ok (.int (-20)) {} ∧
      ∃ fault, callPrimitive call 0 .round [.int 9223372036854775807, .int (-1)] {} =
        .error (.primitive .round fault) {} ∧ fault.message = "integer overflow" := by
  intro call
  have hneg : (-1 : Int64).toInt < 0 := by decide
  refine ⟨hneg, ?_, ?_⟩
  · obtain ⟨r, -, hunique, hround, -⟩ := (callPrimitive_round call 0 {} (-25) (-1)).2 hneg
    refine (hround (by decide)).1 (-20) (hunique _ ?_)
    exact @IsNearestMultiple.of_half 10 (-25) (-2) (.inr (by decide))
  · obtain ⟨r, -, hunique, hround, -⟩ :=
      (callPrimitive_round call 0 {} 9223372036854775807 (-1)).2 hneg
    have hr : 9223372036854775810 = r := hunique _
      (@IsNearestMultiple.of_half 10 9223372036854775807 922337203685477581 (.inl (by decide)))
    exact (hround (by decide)).2 (by rw [← hr]; decide)

/-- Six is nearer to ten than to zero, and so is `6 * 10 ^ 18` to `10 ^ 19`, which does not fit an
integer.  It is rounded to zero instead of being refused. -/
theorem callPrimitive_round_far :
    IsNearestMultiple (10 ^ 19) (6000000000000000000 : Int64).toInt 10000000000000000000 ∧
      ¬ Integer.Fits 10000000000000000000 ∧
      callPrimitive (fun _ _ _ => .exhausted) 0 .round
        [.int 6000000000000000000, .int (-19)] {} = .ok (.int 0) {} := by
  refine ⟨?_, by decide, rfl⟩
  exact @IsNearestMultiple.of_half (10 ^ 19) 6000000000000000000 1 (.inl (by decide))

end

end SmallLisp
