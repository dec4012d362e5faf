import SmallLisp.Proofs.Number.Decimal

/-!
# Integers as doubles

An integer is compared with a double after it has been converted to the double nearest to it.  Where
that double stands in the order of all doubles is the rounded absolute value with the sign of the
integer (`rank_ofInt`), so conversion never puts integers out of order (`rank_ofInt_mono`).
Integers up to `2 ^ 53` in magnitude are doubles themselves; farther away from zero, several of them
convert to the same double.  So no other integer converts to the double of an integer that is less
than `2 ^ 53` in magnitude (`eq_of_rank_ofInt_eq`).
-/

namespace SmallLisp.Binary64

open Decimal

variable {k m n : Nat}

/-! ## The double of an integer -/

/-- No fraction rounds to a place beyond infinity. -/
lemma nearest_lt_signBit (num den : Nat) : nearest num den < signBit :=
  Nat.lt_of_le_of_lt (Nat.min_le_right _ _) (by decide)

/-- The double of an integer is the rounded absolute value, with the sign of the integer. -/
theorem rank_ofInt (n : Int) :
    rank (ofInt n) = if n < 0 then -(nearest n.natAbs 1 : Int) else nearest n.natAbs 1 := by
  have hlt := nearest_lt_signBit n.natAbs 1
  simp only [rank, ofInt, isNegative_ofMagnitude _ hlt, magnitude_ofMagnitude _ hlt,
    decide_eq_true_eq]

/-- Every integer converts to a number. -/
lemma isNaN_ofInt (n : Int) : isNaN (ofInt n) = false := by
  rw [isNaN, ofInt, magnitude_ofMagnitude _ (nearest_lt_signBit _ _)]
  exact decide_eq_false (Nat.not_lt_of_le (Nat.min_le_right _ _))

/-- Conversion keeps integers in order, but different ones may become the same double. -/
theorem rank_ofInt_mono {m n : Int} (h : m ≤ n) : rank (ofInt m) ≤ rank (ofInt n) := by
  rw [rank_ofInt, rank_ofInt]
  by_cases hm : m < 0
  · rw [if_pos hm]
    by_cases hn : n < 0
    · have hle : nearest n.natAbs 1 ≤ nearest m.natAbs 1 := nearest_mono Nat.one_pos (by omega)
      rw [if_pos hn]
      omega
    · rw [if_neg hn]
      omega
  · have hle : nearest m.natAbs 1 ≤ nearest n.natAbs 1 := nearest_mono Nat.one_pos (by omega)
    rw [if_neg hm, if_neg (by omega)]
    omega

/-- A whole number that is the value of a magnitude rounds to it. -/
lemma nearest_of_units (hk : k < infinity) (h : units k = n * unity) : nearest n 1 = k := by
  rcases Nat.eq_zero_or_pos k with rfl | hpos
  · have hzero : n = 0 := by
      have hunity : 0 < unity := by decide
      have hproduct : n * unity = 0 := h.symm
      exact (Nat.mul_eq_zero.mp hproduct).resolve_right (Nat.ne_of_gt hunity)
    subst hzero
    rfl
  · refine nearest_eq Nat.one_pos hk ?_
    rw [← h]
    simpa using roundsTo_units hpos Nat.one_pos

/-- Whole numbers up to `2 ^ 53` are values of magnitudes. -/
lemma exists_units (hn : n ≤ 2 * binade) : ∃ k < infinity, units k = n * unity := by
  rcases Nat.eq_zero_or_pos n with rfl | hpos
  · exact ⟨0, by decide, rfl⟩
  -- the significand is the number, moved up into the first binade of normal numbers
  have hsig : binade ≤ n * 2 ^ (52 - n.log2) ∧ n * 2 ^ (52 - n.log2) ≤ 2 * binade := by
    constructor
    · calc binade = 2 ^ 52 := by decide
        _ ≤ 2 ^ (n.log2 + (52 - n.log2)) := Nat.pow_le_pow_right (by decide) (by omega)
        _ = 2 ^ n.log2 * 2 ^ (52 - n.log2) := Nat.pow_add ..
        _ ≤ n * 2 ^ (52 - n.log2) := Nat.mul_le_mul_right _ (Nat.log2_self_le (Nat.ne_of_gt hpos))
    · by_cases hlog : n.log2 ≤ 52
      · calc n * 2 ^ (52 - n.log2) ≤ 2 ^ (n.log2 + 1) * 2 ^ (52 - n.log2) :=
              Nat.mul_le_mul_right _ (Nat.le_of_lt Nat.lt_log2_self)
          _ = 2 ^ 53 := by rw [← Nat.pow_add]; congr 1; omega
          _ = 2 * binade := by decide
      · rwa [show 52 - n.log2 = 0 by omega, Nat.pow_zero, Nat.mul_one]
  have hshift : 52 - n.log2 ≤ precision := by
    unfold precision
    omega
  refine ⟨n * 2 ^ (52 - n.log2) + (precision - (52 - n.log2)) * binade, ?_, ?_⟩
  · have hle : (precision - (52 - n.log2)) * binade ≤ precision * binade :=
      Nat.mul_le_mul_right binade (Nat.sub_le _ _)
    unfold infinity precision binade at *
    omega
  · rw [units_add hsig.2 (.inr hsig.1), Nat.mul_assoc, ← Nat.pow_add, Nat.add_sub_cancel' hshift,
      unity, Nat.shiftLeft_eq, Nat.one_mul]

/-- To the double of a number below `2 ^ 53` no other number rounds. -/
lemma eq_of_nearest_eq (hm : m < 2 * binade) (h : nearest m 1 = nearest n 1) : m = n := by
  have hunity : 0 < unity := by decide
  obtain ⟨j, hj, hjunits⟩ := exists_units (Nat.le_of_lt hm)
  rw [nearest_of_units hj hjunits] at h
  by_cases hn : n ≤ 2 * binade
  · obtain ⟨k, hk, hkunits⟩ := exists_units hn
    rw [nearest_of_units hk hkunits] at h
    subst h
    exact Nat.eq_of_mul_eq_mul_right hunity (hjunits.symm.trans hkunits)
  · -- the number is rounded to `2 ^ 53` at least
    obtain ⟨k, hk, hkunits⟩ := exists_units (Nat.le_refl (2 * binade))
    have hle : k ≤ j := by
      rw [h, ← nearest_of_units hk hkunits]
      exact nearest_mono Nat.one_pos (Nat.le_of_not_le hn)
    have hlt : units j < units k := by
      rw [hjunits, hkunits]
      exact Nat.mul_lt_mul_of_pos_right hm hunity
    exact absurd (units_strictMono.monotone hle) (Nat.not_le_of_lt hlt)

/-- No other integer converts to the double of an integer below `2 ^ 53` in magnitude. -/
theorem eq_of_rank_ofInt_eq {m n : Int} (hm : m.natAbs < 2 * binade)
    (h : rank (ofInt m) = rank (ofInt n)) : m = n := by
  rw [rank_ofInt, rank_ofInt] at h
  have hnearest : nearest m.natAbs 1 = nearest n.natAbs 1 := by
    split at h <;> split at h <;> omega
  have habs : m.natAbs = n.natAbs := eq_of_nearest_eq hm hnearest
  rcases Int.natAbs_eq_natAbs_iff.mp habs with heq | hneg
  · exact heq
  by_cases hm0 : m = 0
  · omega
  · -- opposite integers convert to the same double only if that is zero
    have hzero : nearest m.natAbs 1 = nearest 0 1 := by
      show _ = 0
      split at h <;> split at h <;> omega
    exact absurd (Int.natAbs_eq_zero.mp (eq_of_nearest_eq hm hzero)) hm0

end SmallLisp.Binary64
