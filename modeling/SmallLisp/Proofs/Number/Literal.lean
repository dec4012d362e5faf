import Mathlib
import SmallLisp.Number.Literal
import SmallLisp.Proofs.Number.Decimal

/-!
# Numbers that are written read back

Writing a number and reading the text gives the number: `integerValue_text` for integers, and
`double?_write` for all doubles, infinities included.  There is a single text for all doubles that
are no numbers, and it reads as one of them (`Binary64.canonical`).  The text of a double is never
an integer literal (`isInteger_write`), so that the two kinds stay apart.

A finite double is written as digits, a point and digits.  What such a text says as a decimal
(`Decimal.pointed`) has the value of the decimal that was written, but may have another exponent.
-/

namespace SmallLisp

/-! ## Digits -/

namespace Literal

lemma digitsValue_eq (cs : List Char) : digitsValue cs = Nat.ofDigitChars 10 cs 0 :=
  Nat.ofDigitChars_eq_foldl.symm

lemma digitsValue_toDigits (n : Nat) : digitsValue (Nat.toDigits 10 n) = n := by
  rw [digitsValue_eq, Nat.ofDigitChars_ten_toDigits]

lemma digitsValue_zeros_append (n : Nat) (cs : List Char) :
    digitsValue (List.replicate n '0' ++ cs) = digitsValue cs := by
  rw [digitsValue_eq, digitsValue_eq, Nat.ofDigitChars_append, Nat.ofDigitChars_replicate_zero,
    Nat.mul_zero]

lemma digitsValue_append_zeros (cs : List Char) (n : Nat) :
    digitsValue (cs ++ List.replicate n '0') = digitsValue cs * 10 ^ n := by
  rw [digitsValue_eq, digitsValue_eq, Nat.ofDigitChars_append, Nat.ofDigitChars_replicate_zero,
    Nat.mul_comm]

/-- Digits, a point and digits are a decimal. -/
lemma decimal?_point {whole fraction : List Char} (hwhole : ∀ c ∈ whole, c.isDigit)
    (hfraction : ∀ c ∈ fraction, c.isDigit) (hne : whole ≠ []) :
    decimal? (whole ++ '.' :: fraction) =
      some ⟨digitsValue (whole ++ fraction), -(fraction.length : Int)⟩ := by
  have htake : (whole ++ '.' :: fraction).takeWhile Char.isDigit = whole := by
    rw [List.takeWhile_append_of_pos hwhole]
    simp
  have hdrop : (whole ++ '.' :: fraction).dropWhile Char.isDigit = '.' :: fraction := by
    rw [List.dropWhile_append_of_pos hwhole]
    simp
  have htake' : fraction.takeWhile Char.isDigit = fraction := by
    rw [← List.append_nil fraction, List.takeWhile_append_of_pos hfraction]
    simp
  have hdrop' : fraction.dropWhile Char.isDigit = [] := by
    rw [← List.append_nil fraction, List.dropWhile_append_of_pos hfraction]
    simp
  unfold decimal?
  simp only [htake, hdrop, htake', hdrop']
  simp [hne, exponent?]

end Literal

namespace Decimal

open Literal

lemma isDigit_of_mem_digitText {d : Decimal} : ∀ c ∈ d.digitText, c.isDigit :=
  fun _ hc => Nat.isDigit_of_mem_toDigits (by decide) (by decide) hc

lemma isDigit_of_mem_zeros {n : Nat} : ∀ c ∈ List.replicate n '0', c.isDigit := by
  intro c hc
  rw [(List.mem_replicate.mp hc).2]
  rfl

/-- The decimal that the text of a decimal without an exponent says. -/
def pointed (d : Decimal) : Decimal :=
  if 0 ≤ d.exponent then ⟨d.digits * 10 ^ (d.exponent.toNat + 1), -1⟩ else d

/-- A decimal without an exponent is written as digits, a point and digits. -/
lemma exists_plain (d : Decimal) : ∃ whole fraction, d.plain = whole ++ '.' :: fraction ∧
    whole ≠ [] ∧ (∀ c ∈ whole, c.isDigit) ∧ (∀ c ∈ fraction, c.isDigit) ∧
    d.pointed = ⟨digitsValue (whole ++ fraction), -(fraction.length : Int)⟩ := by
  unfold plain pointed
  split
  · next hexponent =>
    refine ⟨d.digitText ++ List.replicate d.exponent.toNat '0', ['0'], by simp, ?_, ?_, by simp, ?_⟩
    · simp [digitText, Nat.toDigits_ne_nil]
    · simp only [List.forall_mem_append]
      exact ⟨isDigit_of_mem_digitText, isDigit_of_mem_zeros⟩
    · have hzeros : List.replicate d.exponent.toNat '0' ++ ['0'] =
          List.replicate (d.exponent.toNat + 1) '0' := by
        rw [List.replicate_succ']
      rw [List.append_assoc, hzeros, digitsValue_append_zeros, digitText, digitsValue_toDigits]
      rfl
  · next hexponent =>
    simp only
    generalize hplaces : (-d.exponent).toNat = places
    generalize hdigits :
      List.replicate (places + 1 - d.digitText.length) '0' ++ d.digitText = digits
    have hdigit : ∀ c ∈ digits, c.isDigit := by
      rw [← hdigits]
      simp only [List.forall_mem_append]
      exact ⟨isDigit_of_mem_zeros, isDigit_of_mem_digitText⟩
    have hlength : places + 1 ≤ digits.length := by
      rw [← hdigits]
      simp
      omega
    refine ⟨digits.take (digits.length - places), digits.drop (digits.length - places), rfl,
      ?_, ?_, ?_, ?_⟩
    · intro hnil
      have hzero := congrArg List.length hnil
      simp at hzero
      omega
    · exact fun c hc => hdigit c (List.mem_of_mem_take hc)
    · exact fun c hc => hdigit c (List.mem_of_mem_drop hc)
    · have hvalue : digitsValue digits = d.digits := by
        rw [← hdigits, digitsValue_zeros_append, digitText, digitsValue_toDigits]
      have hexponent' : d.exponent = -((digits.length - (digits.length - places) : Nat) : Int) := by
        omega
      rw [List.take_append_drop, hvalue, List.length_drop, ← hexponent']

/-- What the text of a decimal says has the same value. -/
lemma ReadsAs.pointed {d : Decimal} {k : Nat} (h : ReadsAs d k) : ReadsAs d.pointed k := by
  unfold Decimal.pointed
  split
  · next hexponent =>
    unfold ReadsAs at *
    rw [show (-d.exponent).toNat = 0 by omega, Nat.pow_zero] at h
    have hscaled := RoundsTo.scale h (c := 10) (by decide)
    rw [Nat.mul_right_comm, Nat.mul_assoc d.digits, ← Nat.pow_succ, Nat.one_mul] at hscaled
    simpa using hscaled
  · exact h

lemma magnitude_pointed_zero : (pointed ⟨0, 0⟩).magnitude = 0 := by
  simp [pointed, magnitude]

end Decimal

/-! ## Doubles -/

/-- The double that the text of a double says: the double itself, unless it is no number. -/
def Binary64.canonical (x : Double) : Double :=
  if isNaN x then ofMagnitude false undefined else x

/-- What the text of a double says is what its own text says. -/
@[simp]
lemma Binary64.canonical_canonical (x : Double) : canonical (canonical x) = canonical x := by
  unfold canonical
  by_cases h : isNaN x
  · rw [if_pos h]
    rfl
  · rw [if_neg h, if_neg h]

/-- It is written in the same way. -/
@[simp]
lemma Layout.write_canonical (layout : Layout) (x : Double) :
    layout.write (Binary64.canonical x) = layout.write x := by
  unfold Binary64.canonical
  by_cases h : Binary64.isNaN x
  · rw [if_pos h, write, write, if_pos h]
    rfl
  · rw [if_neg h]

namespace Literal

/-- The words for special doubles begin with two letters. -/
lemma specialMagnitude?_of_head {c : Char} {cs : List Char} (hlower : c.toLower = c) (hi : c ≠ 'i')
    (hn : c ≠ 'n') : specialMagnitude? (c :: cs) = none := by
  have hhead {word : String} (h : String.ofList ((c :: cs).map Char.toLower) = word) :
      word.toList.head? = some c := by
    rw [← h, String.toList_ofList, List.map_cons, List.head?_cons, hlower]
  unfold specialMagnitude?
  split
  · next h =>
    cases hhead h
    exact absurd rfl hi
  · next h =>
    cases hhead h
    exact absurd rfl hi
  · next h =>
    cases hhead h
    exact absurd rfl hn
  · rfl

/-- A text that begins with a digit is not one of the words for special doubles. -/
lemma specialMagnitude?_eq_none {c : Char} {cs : List Char} (hc : c.isDigit) :
    specialMagnitude? (c :: cs) = none := by
  have hlower : c.toLower = c := by
    have hle : c.val ≤ '9'.val := of_decide_eq_true (Bool.and_eq_true_iff.mp hc).2
    rw [Char.toLower, dif_neg]
    rintro ⟨h, -⟩
    exact absurd (UInt32.le_trans h hle) (by decide)
  exact specialMagnitude?_of_head hlower (by rintro rfl; cases hc) (by rintro rfl; cases hc)

/-- What begins with a quote is no double. -/
lemma double?_quote (cs : List Char) : double? ('"' :: cs) = none := by
  have hsign : splitSign ('"' :: cs) = (false, '"' :: cs) := rfl
  have hdecimal : decimal? ('"' :: cs) = none := rfl
  have hspecial : specialMagnitude? ('"' :: cs) = none :=
    specialMagnitude?_of_head rfl (by decide) (by decide)
  simp only [double?, hsign, hspecial, hdecimal, Option.map_none]

/-- A digit is no sign. -/
lemma splitSign_of_isDigit {c : Char} {cs : List Char} (hc : c.isDigit) :
    splitSign (c :: cs) = (false, c :: cs) := by
  unfold splitSign
  split
  · next h =>
    cases h
    cases hc
  · next h =>
    cases h
    cases hc
  · rfl

/-- Reading the text of a decimal after a sign. -/
lemma double?_plain (negative : Bool) (d : Decimal) :
    double? (if negative then '-' :: d.plain else d.plain) =
      some (Binary64.ofMagnitude negative d.pointed.magnitude) := by
  obtain ⟨whole, fraction, hplain, hne, hwhole, hfraction, hpointed⟩ := d.exists_plain
  obtain ⟨c, cs, rfl⟩ := List.exists_cons_of_ne_nil hne
  have hc : c.isDigit := hwhole c List.mem_cons_self
  have hdecimal := decimal?_point hwhole hfraction hne
  rw [hplain, hpointed]
  rw [List.cons_append] at hdecimal ⊢
  cases negative with
  | true => simp [double?, splitSign, specialMagnitude?_eq_none hc, hdecimal]
  | false =>
    simp [double?, splitSign_of_isDigit hc, specialMagnitude?_eq_none hc, hdecimal]

/-- The digits of a finite magnitude are those of a decimal without an exponent that reads back. -/
lemma exists_digits {k : Nat} (hk : k < Binary64.infinity) :
    ∃ d : Decimal, Layout.positional.digits k = d.plain ∧ d.pointed.magnitude = k := by
  unfold Layout.digits
  by_cases hzero : k = 0
  · subst hzero
    exact ⟨⟨0, 0⟩, rfl, Decimal.magnitude_pointed_zero⟩
  · have hpos : 0 < k := Nat.pos_of_ne_zero hzero
    by_cases hwhole : Binary64.isWhole k
    · have hreads := (Decimal.readsAs_whole hpos hwhole).pointed
      exact ⟨_, by simp [hzero, hwhole, Layout.positional], Decimal.magnitude_eq hreads hpos hk⟩
    · have hreads := (Decimal.readsAs_shortest hpos).pointed
      exact ⟨_, by simp [hzero, hwhole, Layout.positional], Decimal.magnitude_eq hreads hpos hk⟩

lemma double?_infinity (negative : Bool) :
    double? (if negative then ['-', 'i', 'n', 'f'] else ['i', 'n', 'f']) =
      some (Binary64.ofMagnitude negative Binary64.infinity) := by
  cases negative <;> rfl

/-- Every double reads back from its text, up to which one it is of those that are no numbers. -/
theorem double?_write (x : Double) :
    double? (Layout.positional.write x).toList = some (Binary64.canonical x) := by
  unfold Layout.write Binary64.canonical
  by_cases hnan : Binary64.isNaN x
  · rw [if_pos hnan, if_pos hnan]
    rfl
  · rw [if_neg hnan, if_neg hnan, String.toList_ofList]
    by_cases hfinite : Binary64.magnitude x < Binary64.infinity
    · obtain ⟨d, hdigits, hmagnitude⟩ := exists_digits hfinite
      rw [if_pos hfinite, hdigits, double?_plain, hmagnitude, Binary64.ofMagnitude_magnitude]
    · have hinfinity : Binary64.magnitude x = Binary64.infinity := by
        simp only [Binary64.isNaN, decide_eq_true_eq] at hnan
        omega
      rw [if_neg hfinite, double?_infinity, ← hinfinity, Binary64.ofMagnitude_magnitude]

/-- What the text of a double looks like. -/
lemma write_cases (x : Double) : (Layout.positional.write x).toList = ['N', 'a', 'N'] ∨
    ∃ body, (Layout.positional.write x).toList =
        (if Binary64.isNegative x then '-' :: body else body) ∧
      (body = ['i', 'n', 'f'] ∨ ∃ d : Decimal, body = d.plain) := by
  unfold Layout.write
  by_cases hnan : Binary64.isNaN x
  · rw [if_pos hnan]
    exact .inl rfl
  · rw [if_neg hnan, String.toList_ofList]
    refine .inr ⟨_, rfl, ?_⟩
    by_cases hfinite : Binary64.magnitude x < Binary64.infinity
    · obtain ⟨d, hdigits, -⟩ := exists_digits hfinite
      rw [if_pos hfinite]
      exact .inr ⟨d, hdigits⟩
    · rw [if_neg hfinite]
      exact .inl rfl

/-- A text with a character that is neither a digit nor a sign is no integer. -/
lemma isInteger_eq_false {cs : List Char} {c : Char} (hmem : c ∈ cs) (hdigit : c.isDigit = false)
    (hminus : c ≠ '-') (hplus : c ≠ '+') : isInteger cs = false := by
  have hrest : c ∈ (splitSign cs).2 := by
    unfold splitSign
    split
    · simpa [hminus] using hmem
    · simpa [hplus] using hmem
    · exact hmem
  have hall : (splitSign cs).2.all Char.isDigit = false := by
    rw [List.all_eq_false]
    exact ⟨c, hrest, by simp [hdigit]⟩
  simp [isInteger, hall]

/-- The text of a double is no integer. -/
theorem isInteger_write (x : Double) : isInteger (Layout.positional.write x).toList = false := by
  rcases write_cases x with hnan | ⟨body, htext, rfl | ⟨d, rfl⟩⟩
  · rw [hnan]
    rfl
  · rw [htext]
    exact isInteger_eq_false (c := 'i') (by split <;> simp) rfl (by decide) (by decide)
  · obtain ⟨whole, fraction, hplain, -⟩ := d.exists_plain
    rw [htext, hplain]
    exact isInteger_eq_false (c := '.') (by split <;> simp) rfl (by decide) (by decide)

/-! ## Integers -/

/-- The text of an integer is a sign, if it is negative, and its digits. -/
lemma toList_text (n : Int64) : (Integer.text n).toList =
    if n.toInt < 0 then '-' :: Nat.toDigits 10 n.toInt.natAbs
    else Nat.toDigits 10 n.toInt.natAbs := by
  unfold Integer.text
  show (Int.repr n.toInt).toList = _
  cases n.toInt with
  | ofNat m => simp [Int.repr]
  | negSucc m => simp [Int.repr]

lemma splitSign_text (n : Int64) :
    splitSign (Integer.text n).toList = (decide (n.toInt < 0), Nat.toDigits 10 n.toInt.natAbs) := by
  have hdigits := Nat.toDigits_ne_nil (b := 10) (n := n.toInt.natAbs)
  obtain ⟨c, cs, hcons⟩ := List.exists_cons_of_ne_nil hdigits
  have hc : c.isDigit := by
    apply Nat.isDigit_of_mem_toDigits (b := 10) (n := n.toInt.natAbs) (by decide) (by decide)
    simp [hcons]
  rw [toList_text]
  split
  · next hneg => simp [splitSign, hneg]
  · next hneg => rw [hcons, splitSign_of_isDigit hc, decide_eq_false hneg]

/-- The text of an integer is an integer literal. -/
theorem isInteger_text (n : Int64) : isInteger (Integer.text n).toList = true := by
  have hdigits : ∀ c ∈ Nat.toDigits 10 n.toInt.natAbs, c.isDigit :=
    fun c hc => Nat.isDigit_of_mem_toDigits (by decide) (by decide) hc
  simpa [isInteger, splitSign_text, Nat.toDigits_ne_nil] using hdigits

/-- Every integer reads back from its text. -/
theorem integerValue_text (n : Int64) : integerValue (Integer.text n).toList = n.toInt := by
  simp only [integerValue, splitSign_text, digitsValue_toDigits, signed, decide_eq_true_eq]
  split <;> omega

end Literal

lemma Integer.ofInt?_toInt (n : Int64) : Integer.ofInt? n.toInt = some n := by
  have hfits : Integer.Fits n.toInt := ⟨n.le_toInt, n.toInt_lt⟩
  rw [Integer.ofInt?, if_pos hfits, Int64.ofInt_toInt]

end SmallLisp
