import Mathlib
import SmallLisp.Number.Layout
import SmallLisp.Proofs.Number.Nearest

/-!
# Decimals that read back

A decimal reads back as a magnitude if its value rounds to it (`Decimal.ReadsAs`).  The decimals
that are written for a magnitude do: the whole number that it is (`readsAs_whole`) and the first
hit of the search for a short one (`readsAs_shortest`).  How many digits the search tries first
plays no part in that, because every hit rounds to the magnitude and the last grid always hits.

`magnitude_eq` closes the circle: reading such a decimal gives the magnitude.  The shortcuts for
very large and very small decimals are never taken on the way.
-/

namespace SmallLisp.Decimal

open Binary64

variable {k num den : Nat} {d : Decimal}

/-! ## Rounding to a magnitude -/

/-- Whether the value of the decimal rounds to the magnitude. -/
def ReadsAs (d : Decimal) (k : Nat) : Prop :=
  RoundsTo k (d.digits * 10 ^ d.exponent.toNat * unity) (10 ^ (-d.exponent).toNat)

/-- A fraction can be extended. -/
lemma RoundsTo.scale (h : RoundsTo k num den) {c : Nat} (hc : 0 < c) :
    RoundsTo k (num * c) (den * c) := by
  unfold RoundsTo at *
  simp only [← Nat.mul_assoc, Nat.mul_lt_mul_right hc, Nat.mul_left_inj (Nat.ne_of_gt hc)] at h ⊢
  exact h

/-- The value of a magnitude rounds to it. -/
lemma roundsTo_units (hk : 0 < k) (hden : 0 < den) : RoundsTo k (units k * den) den := by
  have hprev : units (k - 1) < units k := units_strictMono (Nat.sub_lt hk Nat.one_pos)
  have hnext : units k < units (k + 1) := units_strictMono (Nat.lt_succ_self k)
  have hlow := Nat.mul_lt_mul_of_pos_right hprev hden
  have hhigh := Nat.mul_lt_mul_of_pos_right hnext hden
  refine .inl ⟨?_, ?_⟩
  · rw [Nat.add_mul]
    omega
  · rw [Nat.add_mul]
    omega

/-! ## Whole numbers -/

/-- A magnitude that is whole reads back from that whole number. -/
theorem readsAs_whole (hk : 0 < k) (h : isWhole k) : ReadsAs ⟨wholePart k, 0⟩ k := by
  have hunity : 0 < unity := by decide
  have hmod : units k % unity = 0 := by simpa [isWhole] using h
  have hpart : wholePart k * unity = units k := by
    have hquotient : wholePart k = units k / unity := by
      simp [wholePart, roundQuotient, hmod, hunity]
    rw [hquotient, Nat.div_mul_cancel (Nat.dvd_of_mod_eq_zero hmod)]
  have hunits := roundsTo_units hk Nat.one_pos
  simpa [ReadsAs, hpart] using hunits

/-! ## The search for a short decimal -/

/-- A point of a grid that is hit rounds to the magnitude. -/
lemma readsAs_of_onGrid? {exponent : Int} {digits : Nat} (h : onGrid? k exponent = some digits) :
    ReadsAs ⟨digits, exponent⟩ k := by
  unfold onGrid? at h
  simp only at h
  split at h
  · next hhit =>
    cases h
    simpa [ReadsAs, Nat.mul_assoc] using hhit.1
  · split at h
    · next hhit =>
      cases h
      simpa [ReadsAs, Nat.mul_assoc] using hhit
    · cases h

/-- The exact value of a magnitude reads back. -/
lemma readsAs_exact (hk : 0 < k) : ReadsAs (exact k) k := by
  have hden : 0 < 10 ^ precision := Nat.pow_pos (by decide)
  have hunits := roundsTo_units hk hden
  have hone : 5 ^ precision * unity = 10 ^ precision := by decide +kernel
  simpa [ReadsAs, exact, Nat.mul_assoc, hone] using hunits

/-- What holds of every hit and of the last decimal holds of what the search gives. -/
lemma firstHit_induction {motive : Decimal → Prop} {hit? : Int → Option Nat} {last : Decimal}
    (hit : ∀ exponent digits, hit? exponent = some digits → motive ⟨digits, exponent⟩)
    (missed : motive last) (n : Nat) : motive (firstHit hit? last n) := by
  induction n with
  | zero => exact missed
  | succ n ih =>
    rw [firstHit]
    split
    · next digits hdigits => exact hit _ _ hdigits
    · exact ih

/-- The short decimal of a magnitude reads back. -/
theorem readsAs_shortest (hk : 0 < k) : ReadsAs (shortest k) k := by
  rw [shortest]
  apply firstHit_induction (motive := fun d => ReadsAs d k)
  · intro exponent digits h
    exact readsAs_of_onGrid? h
  · exact readsAs_exact hk

/-! ## Reading back -/

/-- The place up to which, in both directions, powers of ten are computed. -/
def farthestPlace : Nat := 400

/-- A decimal that reads back as a finite magnitude is not beyond the farthest place. -/
lemma ReadsAs.value_lt (h : ReadsAs d k) (hk : k < infinity) :
    d.digits * 10 ^ d.exponent.toNat < 10 ^ (farthestPlace + (-d.exponent).toNat) := by
  have hden : 0 < 10 ^ (-d.exponent).toNat := Nat.pow_pos (by decide)
  have htop : units infinity < 10 ^ farthestPlace * unity := by decide +kernel
  have hhigh := RoundsTo.le_high h
  rw [Nat.pow_add]
  generalize d.digits * 10 ^ d.exponent.toNat = num at *
  generalize 10 ^ (-d.exponent).toNat = den at *
  generalize 10 ^ farthestPlace = bound at *
  have hsum : units k + units (k + 1) ≤ 2 * units infinity := by
    have hself : units k ≤ units infinity := units_strictMono.monotone (Nat.le_of_lt hk)
    have hnext : units (k + 1) ≤ units infinity := units_strictMono.monotone hk
    omega
  have hmiddle : num * unity ≤ units infinity * den := by
    have hmul := Nat.mul_le_mul_right den hsum
    rw [Nat.mul_assoc] at hmul
    omega
  have hlt : num * unity < bound * den * unity := by
    calc num * unity ≤ units infinity * den := hmiddle
      _ < bound * unity * den := Nat.mul_lt_mul_of_pos_right htop hden
      _ = bound * den * unity := Nat.mul_right_comm _ _ _
  exact Nat.lt_of_mul_lt_mul_right hlt

/-- A decimal that reads back as a positive magnitude is not before the farthest place. -/
lemma ReadsAs.lt_value (h : ReadsAs d k) (hk : 0 < k) :
    10 ^ (-d.exponent).toNat < d.digits * 10 ^ (d.exponent.toNat + farthestPlace) := by
  have hden : 0 < 10 ^ (-d.exponent).toNat := Nat.pow_pos (by decide)
  have hbottom : 2 * unity < 10 ^ farthestPlace := by decide +kernel
  have hlow := RoundsTo.low_le h
  rw [Nat.pow_add, ← Nat.mul_assoc]
  generalize d.digits * 10 ^ d.exponent.toNat = num at *
  generalize 10 ^ (-d.exponent).toNat = den at *
  generalize 10 ^ farthestPlace = bound at *
  have hle : den ≤ num * (2 * unity) := by
    have hpos := units_pos hk
    have hmul : 1 * den ≤ (units (k - 1) + units k) * den := Nat.mul_le_mul_right den (by omega)
    rw [Nat.mul_left_comm]
    omega
  have hnum : 0 < num := by
    apply Nat.pos_of_ne_zero
    rintro rfl
    omega
  exact Nat.lt_of_le_of_lt hle (Nat.mul_lt_mul_of_pos_left hbottom hnum)

lemma ReadsAs.place_le (h : ReadsAs d k) (hk : k < infinity) (hdigits : d.digits ≠ 0) :
    (Nat.toDigits 10 d.digits).length + d.exponent ≤ farthestPlace := by
  have hvalue := h.value_lt hk
  obtain ⟨n, hn⟩ := Nat.exists_eq_succ_of_ne_zero
    (Nat.ne_of_gt (Nat.length_toDigits_pos (b := 10) (n := d.digits)))
  have hleading : 10 ^ n ≤ d.digits := by
    rcases Nat.eq_zero_or_pos n with rfl | hpos
    · exact Nat.pos_of_ne_zero hdigits
    · by_contra hsmall
      have hshort := (Nat.length_toDigits_le_iff (b := 10) (by decide) hpos).mpr
        (Nat.lt_of_not_le hsmall)
      omega
  have hmul := Nat.mul_le_mul_right (10 ^ d.exponent.toNat) hleading
  rw [← Nat.pow_add] at hmul
  have hlt := (Nat.pow_lt_pow_iff_right (by decide)).mp (Nat.lt_of_le_of_lt hmul hvalue)
  omega

lemma ReadsAs.le_place (h : ReadsAs d k) (hk : 0 < k) :
    -(farthestPlace : Int) ≤ (Nat.toDigits 10 d.digits).length + d.exponent := by
  have hvalue := h.lt_value hk
  have hleading : d.digits < 10 ^ (Nat.toDigits 10 d.digits).length :=
    (Nat.length_toDigits_le_iff (by decide) Nat.length_toDigits_pos).mp (Nat.le_refl _)
  have hmul := Nat.mul_lt_mul_of_pos_right hleading
    (Nat.pow_pos (n := d.exponent.toNat + farthestPlace) (show 0 < 10 by decide))
  rw [← Nat.pow_add] at hmul
  have hlt := (Nat.pow_lt_pow_iff_right (by decide)).mp (Nat.lt_trans hvalue hmul)
  omega

/-- A decimal that reads back as a magnitude is read as that magnitude. -/
theorem magnitude_eq (h : ReadsAs d k) (hk : 0 < k) (hfinite : k < infinity) : d.magnitude = k := by
  have hdigits : d.digits ≠ 0 := by
    intro hzero
    have hvalue := h.lt_value hk
    rw [hzero, Nat.zero_mul] at hvalue
    exact Nat.not_lt_zero _ hvalue
  have hlow : -400 ≤ (Nat.toDigits 10 d.digits).length + d.exponent := h.le_place hk
  have hhigh : (Nat.toDigits 10 d.digits).length + d.exponent ≤ 400 := h.place_le hfinite hdigits
  have hden : 0 < 10 ^ (-d.exponent).toNat := Nat.pow_pos (by decide)
  have hnearest := nearest_eq hden hfinite h
  unfold magnitude
  simp only [hdigits, if_false, Int.not_lt.mpr hlow, Int.not_lt.mpr hhigh]
  split
  · next hexponent =>
    rwa [show (-d.exponent).toNat = 0 by omega, Nat.pow_zero] at hnearest
  · next hexponent =>
    rwa [show d.exponent.toNat = 0 by omega, Nat.pow_zero, Nat.mul_one] at hnearest

end SmallLisp.Decimal
