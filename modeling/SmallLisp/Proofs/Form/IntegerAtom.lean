import SmallLisp.Proofs.Form.Faults
import SmallLisp.Proofs.Number.Literal

/-!
# Atoms that are integers

An atom is an integer if its shape says so, and only then is its value computed; a value that does
not fit is an error.  This module says of both steps what they come to, by a grammar of integer
literals in which every literal has its value (`Literal.Denotes`): one sign or none, and the digits
of a number in base ten.  Zeros in front make no difference there, and nothing bounds the number of
digits.

The shape is that of the grammar (`isInteger_iff`), and the value that is computed is the one of the
grammar (`Denotes.integerValue_eq`).  So an atom in the grammar is its value or does not fit, every
other atom stands for something, but not for an integer, and integers are read back from their texts
(`Form.ofAtom_integer`).
-/

namespace SmallLisp

namespace Literal

/-! ## The grammar -/

/-- The characters are the digits of `n` in base ten, one or more, perhaps with zeros in front. -/
def IsNumeral (cs : List Char) (n : Nat) : Prop :=
  ∃ digits : List Nat, digits ≠ [] ∧ (∀ d ∈ digits, d < 10) ∧ cs = digits.map Nat.digitChar ∧
    n = Nat.ofDigits 10 digits.reverse

/-- The characters are an integer literal for `v`: a numeral, or a sign and a numeral. -/
inductive Denotes : List Char → Int → Prop
  | unsigned {cs : List Char} {n : Nat} (numeral : IsNumeral cs n) : Denotes cs n
  | plus {cs : List Char} {n : Nat} (numeral : IsNumeral cs n) : Denotes ('+' :: cs) n
  | minus {cs : List Char} {n : Nat} (numeral : IsNumeral cs n) : Denotes ('-' :: cs) (-n)

/-! ## Numerals -/

/-- The digits of the language are the characters of the numbers below ten. -/
lemma exists_digitChar {c : Char} (h : c.isDigit) : ∃ d < 10, c = Nat.digitChar d := by
  obtain ⟨hlow, hhigh⟩ := Char.isDigit_iff_toNat.mp h
  have hzero : '0'.toNat = 48 := rfl
  have hnine : '9'.toNat = 57 := rfl
  have hd : c.toNat - 48 < 10 := by omega
  refine ⟨c.toNat - 48, hd, Char.toNat_inj.mp ?_⟩
  rw [Nat.toNat_digitChar_of_lt_ten hd]
  omega

lemma exists_map_digitChar {cs : List Char} (h : ∀ c ∈ cs, c.isDigit) :
    ∃ digits : List Nat, (∀ d ∈ digits, d < 10) ∧ cs = digits.map Nat.digitChar := by
  induction cs with
  | nil => exact ⟨[], by simp, rfl⟩
  | cons c cs ih =>
    obtain ⟨hc, hcs⟩ := List.forall_mem_cons.mp h
    obtain ⟨d, hd, rfl⟩ := exists_digitChar hc
    obtain ⟨digits, hlt, rfl⟩ := ih hcs
    exact ⟨d :: digits, List.forall_mem_cons.mpr ⟨hd, hlt⟩, rfl⟩

lemma exists_isNumeral {cs : List Char} (hne : cs ≠ []) (h : ∀ c ∈ cs, c.isDigit) :
    ∃ n, IsNumeral cs n := by
  obtain ⟨digits, hlt, rfl⟩ := exists_map_digitChar h
  exact ⟨_, digits, by simpa using hne, hlt, rfl, rfl⟩

namespace IsNumeral

variable {cs : List Char} {n : Nat}

lemma ne_nil (h : IsNumeral cs n) : cs ≠ [] := by
  obtain ⟨digits, hne, -, rfl, -⟩ := h
  simpa using hne

lemma isDigit (h : IsNumeral cs n) : ∀ c ∈ cs, c.isDigit := by
  obtain ⟨digits, -, hlt, rfl, -⟩ := h
  intro c hc
  obtain ⟨d, hd, rfl⟩ := List.mem_map.mp hc
  rw [Nat.isDigit_digitChar]
  exact decide_eq_true (hlt d hd)

/-- The value of the digits is the number. -/
lemma digitsValue_eq (h : IsNumeral cs n) : digitsValue cs = n := by
  obtain ⟨digits, -, hlt, rfl, rfl⟩ := h
  induction digits using List.reverseRecOn with
  | nil => rfl
  | append_singleton digits d ih =>
    have hd : d < 10 := hlt d (by simp)
    have hzero : '0'.toNat = 48 := rfl
    have hdigits := ih fun d hd => hlt d (by simp [hd])
    unfold digitsValue at hdigits ⊢
    rw [List.map_append, List.foldl_append, hdigits, List.reverse_append]
    simp only [List.map_cons, List.map_nil, List.foldl_cons, List.foldl_nil, List.reverse_cons,
      List.reverse_nil, List.nil_append, List.singleton_append, Nat.ofDigits_cons,
      Nat.toNat_digitChar_of_lt_ten hd]
    omega

/-- A numeral has no sign. -/
lemma splitSign_eq (h : IsNumeral cs n) : splitSign cs = (false, cs) := by
  obtain ⟨c, rest, rfl⟩ := List.exists_cons_of_ne_nil h.ne_nil
  exact splitSign_of_isDigit (h.isDigit c List.mem_cons_self)

end IsNumeral

/-! ## Integer literals -/

/-- What is in front of the digits of a literal, and which digits these are. -/
lemma Denotes.exists_numeral {cs : List Char} {v : Int} (h : Denotes cs v) :
    ∃ negative digits n, splitSign cs = (negative, digits) ∧ IsNumeral digits n ∧
      v = signed negative n := by
  cases h with
  | unsigned numeral => exact ⟨false, _, _, numeral.splitSign_eq, numeral, rfl⟩
  | plus numeral => exact ⟨false, _, _, rfl, numeral, rfl⟩
  | minus numeral => exact ⟨true, _, _, rfl, numeral, rfl⟩

/-- The value that is computed for a literal is the one that it denotes. -/
theorem Denotes.integerValue_eq {cs : List Char} {v : Int} (h : Denotes cs v) :
    integerValue cs = v := by
  obtain ⟨negative, digits, n, hsplit, hnumeral, rfl⟩ := h.exists_numeral
  rw [integerValue, hsplit]
  show signed negative (digitsValue digits) = _
  rw [hnumeral.digitsValue_eq]

/-- A sign that is split off stands in front of the rest. -/
lemma denotes_of_splitSign {cs digits : List Char} {negative : Bool} {n : Nat}
    (h : splitSign cs = (negative, digits)) (hnumeral : IsNumeral digits n) :
    ∃ v, Denotes cs v := by
  unfold splitSign at h
  split at h
  · cases h
    exact ⟨_, .minus hnumeral⟩
  · cases h
    exact ⟨_, .plus hnumeral⟩
  · cases h
    exact ⟨_, .unsigned hnumeral⟩

/-- The test for the shape of an integer passes the literals of the grammar and nothing else. -/
theorem isInteger_iff {cs : List Char} : isInteger cs ↔ ∃ v, Denotes cs v := by
  constructor
  · intro h
    obtain ⟨hne, hdigits⟩ : (splitSign cs).2 ≠ [] ∧ ∀ c ∈ (splitSign cs).2, c.isDigit := by
      simpa [isInteger] using h
    obtain ⟨n, hnumeral⟩ := exists_isNumeral hne hdigits
    exact denotes_of_splitSign rfl hnumeral
  · rintro ⟨v, h⟩
    obtain ⟨negative, digits, n, hsplit, hnumeral, -⟩ := h.exists_numeral
    have hdigits := hnumeral.isDigit
    simpa [isInteger, hsplit, hnumeral.ne_nil] using hdigits

end Literal

/-! ## Atoms -/

namespace Form

variable {text : String} {span : Span} {v : Int}

lemma ofAtom_of_fits (h : Literal.Denotes text.toList v) (hv : Integer.Fits v) :
    ofAtom text span = .ok (.int (Int64.ofInt v) span) := by
  have hinteger := Literal.isInteger_iff.mpr ⟨v, h⟩
  simp [ofAtom, hinteger, h.integerValue_eq, Integer.ofInt?, hv]

lemma ofAtom_of_not_fits (h : Literal.Denotes text.toList v) (hv : ¬ Integer.Fits v) :
    ofAtom text span = .error (.outOfRange text span) := by
  have hinteger := Literal.isInteger_iff.mpr ⟨v, h⟩
  simp [ofAtom, hinteger, h.integerValue_eq, Integer.ofInt?, hv]

/-- An atom that is no integer literal stands for something else. -/
lemma exists_ofAtom_of_not_denotes (h : ¬ ∃ v, Literal.Denotes text.toList v) :
    ∃ form, ofAtom text span = .ok form ∧ ∀ n place, form ≠ .int n place := by
  have hinteger : Literal.isInteger text.toList = false := by
    rw [← Bool.not_eq_true, Literal.isInteger_iff]
    exact h
  unfold ofAtom
  simp only [hinteger, Bool.false_eq_true, if_false]
  split
  · exact ⟨_, rfl, by simp⟩
  · split
    · exact ⟨_, rfl, by simp⟩
    · exact ⟨_, rfl, by simp⟩

/-- Which atoms are integers.  A text that is a sign or none and one or more digits, however many,
is the integer with exactly that value if it is at least `-2 ^ 63` and less than `2 ^ 63`, and out
of range if not.  Any other text stands for something that is not an integer.  The text in which an
integer is written is read as this integer. -/
theorem ofAtom_integer (span : Span) :
    (∀ text v, Literal.Denotes text.toList v →
      (-2 ^ 63 ≤ v ∧ v < 2 ^ 63 → ∃ n : Int64, n.toInt = v ∧ ofAtom text span = .ok (.int n span)) ∧
      (¬ (-2 ^ 63 ≤ v ∧ v < 2 ^ 63) → ofAtom text span = .error (.outOfRange text span))) ∧
    (∀ text, (¬ ∃ v, Literal.Denotes text.toList v) →
      ∃ form, ofAtom text span = .ok form ∧ ∀ n place, form ≠ .int n place) ∧
    ∀ n : Int64, ofAtom (int n span).text span = .ok (.int n span) := by
  refine ⟨?_, ?_, ?_⟩
  · intro text v h
    constructor
    · intro hv
      refine ⟨Int64.ofInt v, ?_, ofAtom_of_fits h hv⟩
      exact Int64.toInt_ofInt_of_le hv.1 hv.2
    · intro hv
      exact ofAtom_of_not_fits h hv
  · intro text h
    exact exists_ofAtom_of_not_denotes h
  · intro n
    simp [text, ofAtom, Literal.isInteger_text, Literal.integerValue_text, Integer.ofInt?_toInt]

/-- The least integer with a zero in front, the least number that is too large, and two signs. -/
theorem ofAtom_integer_edges :
    Literal.Denotes "-09223372036854775808".toList (-9223372036854775808) ∧
      ofAtom "-09223372036854775808" .nowhere = .ok (.int Int64.minValue .nowhere) ∧
      Literal.Denotes "+9223372036854775808".toList 9223372036854775808 ∧
      ofAtom "+9223372036854775808" .nowhere =
        .error (.outOfRange "+9223372036854775808" .nowhere) ∧
      (¬ ∃ v, Literal.Denotes "+-1".toList v) ∧
      ∃ form, ofAtom "+-1" .nowhere = .ok form ∧ ∀ n place, form ≠ .int n place := by
  obtain ⟨hliteral, hother, -⟩ := ofAtom_integer .nowhere
  have hleast : Literal.Denotes "-09223372036854775808".toList (-9223372036854775808) :=
    .minus ⟨[0, 9, 2, 2, 3, 3, 7, 2, 0, 3, 6, 8, 5, 4, 7, 7, 5, 8, 0, 8], by decide, by decide,
      by decide, by decide⟩
  have hlarge : Literal.Denotes "+9223372036854775808".toList 9223372036854775808 :=
    .plus ⟨[9, 2, 2, 3, 3, 7, 2, 0, 3, 6, 8, 5, 4, 7, 7, 5, 8, 0, 8], by decide, by decide,
      by decide, by decide⟩
  have hsigns : ¬ ∃ v, Literal.Denotes "+-1".toList v := by
    rw [← Literal.isInteger_iff]
    decide
  refine ⟨hleast, ?_, hlarge, (hliteral _ _ hlarge).2 (by decide), hsigns, hother _ hsigns⟩
  obtain ⟨n, hn, hread⟩ := (hliteral _ _ hleast).1 (by decide)
  obtain rfl : n = Int64.minValue := Int64.toInt_inj.mp hn
  exact hread

end Form

end SmallLisp
