import SmallLisp.Number.Decimal

/-!
# How doubles are written

There are two ways to write a double.  `Layout.positional` is what the language prints: whole
numbers with every digit and `.0`, other numbers with the fewest digits that read back, and never
an exponent.  `Layout.compact` is what diagnostics quote: always the fewest digits, and an
exponent when the number is `10 ^ 16` or more, or below `10 ^ (-4)`.
-/

namespace SmallLisp

/-- The choices that distinguish the ways to write a double. -/
structure Layout where
  /-- Whole numbers are written with all their digits instead of the fewest that read back. -/
  exactWhole : Bool
  /-- The places of the leading digit for which the number is written without an exponent. -/
  isPlain : Int → Bool

namespace Layout

/-- Every digit of a whole number, and no exponents. -/
def positional : Layout := ⟨true, fun _ => true⟩

/-- The fewest digits, with an exponent for very large and very small numbers. -/
def compact : Layout := ⟨false, fun place => -4 ≤ place && place < 16⟩

end Layout

namespace Decimal

def digitText (d : Decimal) : List Char := Nat.toDigits 10 d.digits

/-- The power of ten that the leading digit counts. -/
def place (d : Decimal) : Int := d.digitText.length - 1 + d.exponent

/-- The decimal without an exponent, with at least one digit on either side of the point. -/
def plain (d : Decimal) : List Char :=
  if 0 ≤ d.exponent then d.digitText ++ List.replicate d.exponent.toNat '0' ++ ['.', '0']
  else
    let places := (-d.exponent).toNat
    let digits := List.replicate (places + 1 - d.digitText.length) '0' ++ d.digitText
    digits.take (digits.length - places) ++ '.' :: digits.drop (digits.length - places)

/-- The decimal with one digit before the point, if there is a point, and an exponent. -/
def scientific (d : Decimal) : List Char :=
  let mantissa := match d.digitText with
    | first :: second :: rest => first :: '.' :: second :: rest
    | digits => digits
  mantissa ++ 'e' :: (toString d.place).toList

end Decimal

namespace Layout

/-- The digits of a finite magnitude. -/
def digits (layout : Layout) (k : Nat) : List Char :=
  let d : Decimal :=
    if k = 0 then ⟨0, 0⟩
    else if layout.exactWhole && Binary64.isWhole k then ⟨Binary64.wholePart k, 0⟩
    else Decimal.shortest k
  if layout.isPlain d.place then d.plain else d.scientific

def write (layout : Layout) (x : Double) : String :=
  if Binary64.isNaN x then "NaN"
  else
    let k := Binary64.magnitude x
    let digits := if k < Binary64.infinity then layout.digits k else ['i', 'n', 'f']
    String.ofList (if Binary64.isNegative x then '-' :: digits else digits)

end Layout

end SmallLisp
