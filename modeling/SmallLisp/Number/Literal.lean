import SmallLisp.Number.Integer
import SmallLisp.Number.Decimal

/-!
# Numbers in source text

An integer literal is an optional sign and one or more decimal digits.  A double literal is an
optional sign followed by `inf`, `infinity` or `nan` in upper or lower case, or by a decimal: digits
with at most one point among or beside them, at least one digit in all, and an optional exponent
(`e` or `E`, an optional sign, at least one digit).  Doubles are read correctly rounded.

Every integer literal is also a double literal; readers try the integer first.
-/

namespace SmallLisp.Literal

/-! ## Signs and digits -/

/-- Splits off a leading sign; the first component tells whether it is a minus sign. -/
def splitSign : List Char → Bool × List Char
  | '-' :: cs => (true, cs)
  | '+' :: cs => (false, cs)
  | cs => (false, cs)

def digitsValue (cs : List Char) : Nat := cs.foldl (fun n c => 10 * n + (c.toNat - '0'.toNat)) 0

def signed (negative : Bool) (n : Nat) : Int := if negative then -n else n

/-! ## Integers -/

/-- Whether the text is an optional sign and one or more digits. -/
def isInteger (cs : List Char) : Bool :=
  let digits := (splitSign cs).2
  !digits.isEmpty && digits.all Char.isDigit

/-- The number that an integer literal stands for, of any size. -/
def integerValue (cs : List Char) : Int :=
  let (negative, digits) := splitSign cs
  signed negative (digitsValue digits)

/-! ## Doubles -/

/-- The words for an infinity and for what is no number, in lower case, with their magnitudes. -/
def specialMagnitude? (cs : List Char) : Option Nat :=
  match String.ofList (cs.map Char.toLower) with
  | "inf" | "infinity" => some Binary64.infinity
  | "nan" => some Binary64.undefined
  | _ => none

/-- The exponent of a decimal, which ends the literal: nothing at all, or a mark, an optional sign
and one or more digits. -/
def exponent? : List Char → Option Int
  | [] => some 0
  | c :: cs =>
    if (c == 'e' || c == 'E') && isInteger cs then some (integerValue cs) else none

/-- The decimal that an unsigned decimal literal stands for. -/
def decimal? (cs : List Char) : Option Decimal :=
  let whole := cs.takeWhile Char.isDigit
  let (fraction, rest) := match cs.dropWhile Char.isDigit with
    | '.' :: cs => (cs.takeWhile Char.isDigit, cs.dropWhile Char.isDigit)
    | cs => ([], cs)
  let digits := whole ++ fraction
  if digits.isEmpty then none
  else (exponent? rest).map fun e => ⟨digitsValue digits, e - fraction.length⟩

/-- The double that a literal stands for, if it is one. -/
def double? (cs : List Char) : Option Double :=
  let (negative, cs) := splitSign cs
  match specialMagnitude? cs with
  | some k => some (Binary64.ofMagnitude negative k)
  | none => (decimal? cs).map fun d => Binary64.ofMagnitude negative d.magnitude

end SmallLisp.Literal
