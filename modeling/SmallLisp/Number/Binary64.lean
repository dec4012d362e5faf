import SmallLisp.Number.Rounding

/-!
# Doubles, exactly

A double is a word of 64 bits (`Double`).  The nonnegative doubles in increasing order are `0`, the
subnormal numbers, the normal numbers and infinity, and their bits count them without a gap; the
patterns above infinity are no numbers.  So a double is a sign and a *magnitude*, the number of its
place in that row, and every question that is asked of a double here is answered in exact
arithmetic on natural numbers:

* comparing two doubles is comparing their places (`Binary64.compare?`);
* the value of a magnitude is a whole multiple of the smallest positive double (`units`);
* the double nearest to a fraction is one rounded division (`nearest`).

There are many doubles that are no numbers, of both signs.  No order tells them apart, and neither
does their text, but their bits do.
-/

namespace SmallLisp

/-- A double-precision floating-point number, by its bits. -/
structure Double where
  bits : UInt64
deriving DecidableEq

namespace Binary64

/-! ## Sign and magnitude -/

/-- The weight of the sign bit, `2 ^ 63`. -/
def signBit : Nat := 9223372036854775808

/-- The number of doubles between one power of two and the next, `2 ^ 52`. -/
def binade : Nat := 4503599627370496

/-- The place of a double, its sign apart, in the row of nonnegative doubles. -/
def magnitude (x : Double) : Nat := x.bits.toNat % signBit

/-- Whether the sign bit is set. -/
def isNegative (x : Double) : Bool := signBit ≤ x.bits.toNat

/-- The place of infinity; larger magnitudes are no numbers. -/
def infinity : Nat := 2047 * binade

/-- The magnitude that a literal for what is no number has. -/
def undefined : Nat := infinity + binade / 2

/-- Whether the double is a number other than an infinity. -/
def isFinite (x : Double) : Bool := magnitude x < infinity

/-- Whether the double is no number. -/
def isNaN (x : Double) : Bool := infinity < magnitude x

/-- The double with the given sign and magnitude. -/
def ofMagnitude (negative : Bool) (k : Nat) : Double :=
  ⟨UInt64.ofNat (if negative then signBit + k else k)⟩

/-- A double is its sign and its magnitude. -/
theorem ofMagnitude_magnitude (x : Double) : ofMagnitude (isNegative x) (magnitude x) = x := by
  have hbits : (if isNegative x then signBit + magnitude x else magnitude x) = x.bits.toNat := by
    have hlt : x.bits.toNat < 2 * signBit := x.bits.toNat_lt
    simp only [isNegative, magnitude, decide_eq_true_eq]
    split
    · next hsign =>
      rw [Nat.mod_eq_sub_mod hsign, Nat.mod_eq_of_lt (by omega)]
      omega
    · next hsign => exact Nat.mod_eq_of_lt (Nat.lt_of_not_le hsign)
  rw [ofMagnitude, hbits, UInt64.ofNat_toNat]

theorem magnitude_lt (x : Double) : magnitude x < signBit := Nat.mod_lt _ (by decide)

theorem toNat_bits_ofMagnitude {k : Nat} (negative : Bool) (hk : k < signBit) :
    (ofMagnitude negative k).bits.toNat = if negative then signBit + k else k := by
  rw [ofMagnitude, UInt64.toNat_ofNat']
  apply Nat.mod_eq_of_lt
  unfold signBit at *
  split <;> omega

theorem magnitude_ofMagnitude {k : Nat} (negative : Bool) (hk : k < signBit) :
    magnitude (ofMagnitude negative k) = k := by
  rw [magnitude, toNat_bits_ofMagnitude negative hk]
  split
  · rw [Nat.add_mod_left, Nat.mod_eq_of_lt hk]
  · exact Nat.mod_eq_of_lt hk

theorem isNegative_ofMagnitude {k : Nat} (negative : Bool) (hk : k < signBit) :
    isNegative (ofMagnitude negative k) = negative := by
  rw [isNegative, toNat_bits_ofMagnitude negative hk]
  cases negative with
  | true => simp
  | false => simpa using hk

/-! ## Order -/

/-- The place of a number in the row of all doubles, in which the two zeros coincide. -/
def rank (x : Double) : Int := if isNegative x then -(magnitude x : Int) else magnitude x

/-- The order of two doubles; `none` when one of them is no number. -/
def compare? (x y : Double) : Option Ordering :=
  if isNaN x || isNaN y then none else some (compare (rank x) (rank y))

/-- Whether two doubles are the same number; what is no number equals nothing. -/
def equal (x y : Double) : Bool := compare? x y == some .eq

/-! ## Value -/

/-- Binary places of the smallest positive double, in whose multiples values are counted. -/
def precision : Nat := 1074

/-- The number one, counted in units of `2 ^ (-precision)`. -/
def unity : Nat := 1 <<< precision

/-- The value of a magnitude, counted in units of `2 ^ (-precision)`.  At the place of infinity
this is the value that the next normal number would have. -/
def units (k : Nat) : Nat :=
  if k < binade then k else (k % binade + binade) <<< (k / binade - 1)

/-- The magnitude of the double nearest to `num / den`, a tie going to the even magnitude, and to
infinity from the middle between the largest double and the next normal number on. -/
def nearest (num den : Nat) : Nat :=
  let scaled := num * unity
  let exponent := (scaled / den).log2 - 52
  min (roundQuotient scaled (den <<< exponent) + exponent * binade) infinity

/-- The double nearest to an integer. -/
def ofInt (n : Int) : Double := ofMagnitude (n < 0) (nearest n.natAbs 1)

/-- Whether a finite magnitude is that of a whole number. -/
def isWhole (k : Nat) : Bool := units k % unity == 0

/-- The whole number nearest to the value of a finite magnitude, a half going to the even one. -/
def wholePart (k : Nat) : Nat := roundQuotient (units k) unity

/-- The integer nearest to a finite double, a half going to the even one; `none` for infinities
and for what is no number. -/
def toInt? (x : Double) : Option Int :=
  if isFinite x then
    let n := wholePart (magnitude x)
    some (if isNegative x then -n else n)
  else none

/-- The double rounded to a whole number, a half going to the even one.  The sign is kept, also
that of a zero. -/
def roundWhole (x : Double) : Double :=
  if isFinite x then ofMagnitude (isNegative x) (nearest (wholePart (magnitude x)) 1) else x

end Binary64

/-- Whole numbers stand for the doubles nearest to them. -/
instance (n : Nat) : OfNat Double n := ⟨Binary64.ofInt n⟩

end SmallLisp
