import SmallLisp.Proofs.Primitive.Rounding

/-!
# Primitive procedures that take their arguments on trust

A body with a fixed number of arguments cannot be run on any other number of them, and it computes
on unbounded integers.  A machine does neither: there a procedure is given a list of arguments,
looks at them by their index, and computes in words.  Whether the arguments are there and the words
are wide enough is not looked at again.

This module writes the procedures in that way.  Each step that is not guarded ends in a `Mishap` if
it goes wrong: an index behind the end of the list, a result that does not fit, a number of
arguments for which no case is written.  On all argument lists on which a body is defined, the list
of arguments taken on trust gives what the body gives, without a mishap (`Trusting.Computes`).

For the indices that rests on the number of arguments alone, and for the elements of several lists
on the length of the shortest (`Trusting.columns_forall₂`).  For the rounding of integers it rests
on the width of the step: a step that fits a word is `10 ^ 18` at most, so that twice a remainder
fits too (`Trusting.roundWord_eq`).
-/

namespace SmallLisp

/-! ## Mishaps -/

/-- What goes wrong in a step that nothing guards. -/
inductive Mishap where
  /-- There is no element at the index. -/
  | missing (index length : Nat)
  /-- The exact result of an operation on words does not fit a word. -/
  | overflow (exact : Int)
  | zeroDivisor
  /-- No case is written for this number of arguments. -/
  | unforeseen (count : Nat)
deriving DecidableEq

/-- A computation with steps that nothing guards. -/
abbrev Trusting := Except Mishap

namespace Trusting

/-- The element at an index. -/
def element {α : Type} (xs : List α) (i : Nat) : Trusting α :=
  match xs[i]? with
  | some a => .ok a
  | none => .error (.missing i xs.length)

/-- The elements from an index on. -/
def elementsFrom {α : Type} (xs : List α) (i : Nat) : Trusting (List α) :=
  if i ≤ xs.length then .ok (xs.drop i) else .error (.missing i xs.length)

/-- The word that stores the result of an operation. -/
def word (n : Int) : Trusting Int64 :=
  match Integer.ofInt? n with
  | some w => .ok w
  | none => .error (.overflow n)

/-- Quotient and remainder, where the remainder is not negative. -/
def euclidean (a b : Int64) : Trusting (Int64 × Int64) :=
  if b.toInt = 0 then .error .zeroDivisor
  else do return (← word (a.toInt / b.toInt), ← word (a.toInt % b.toInt))

lemma exists_word {n : Int} (h : Integer.Fits n) : ∃ w, word n = .ok w ∧ w.toInt = n := by
  refine ⟨Int64.ofInt n, ?_, Int64.toInt_ofInt_of_le h.1 h.2⟩
  rw [word, Integer.ofInt?, if_pos h]

lemma exists_euclidean {a b : Int64} (hb : b.toInt ≠ 0)
    (hquotient : Integer.Fits (a.toInt / b.toInt))
    (hremainder : Integer.Fits (a.toInt % b.toInt)) :
    ∃ q r, euclidean a b = .ok (q, r) ∧ q.toInt = a.toInt / b.toInt ∧
      r.toInt = a.toInt % b.toInt := by
  obtain ⟨q, hq, hq'⟩ := exists_word hquotient
  obtain ⟨r, hr, hr'⟩ := exists_word hremainder
  refine ⟨q, r, ?_, hq', hr'⟩
  rw [euclidean, if_neg hb, hq, hr]
  rfl

/-! ## Rounding integers in words -/

/-- Whether a quotient is rounded up: beyond the half of a step always, and at the half if that
makes it even. -/
def roundsUp (quotient doubled step : Int) : Bool :=
  match compare doubled step with
  | .gt => true
  | .eq => quotient.tmod 2 != 0
  | .lt => false

/-- An integer rounded to a multiple of a step.  Of all results only the product is checked. -/
def roundStep (i step : Int64) : Trusting (Except Fault Answer) := do
  let (quotient, remainder) ← euclidean i step
  let doubled ← word (2 * remainder.toInt)
  let rounded ←
    if roundsUp quotient.toInt doubled.toInt step.toInt then word (quotient.toInt + 1)
    else pure quotient
  return Answer.int (rounded.toInt * step.toInt)

/-- The power of ten in a word, for an exponent of 32 bits. -/
def powerOfTen? (k : Nat) : Option Int64 :=
  if k < 2 ^ 32 then Integer.ofInt? (10 ^ k) else none

/-- An integer rounded to a multiple of `10 ^ (-digits)`. -/
def roundWord (i digits : Int64) : Trusting (Except Fault Answer) :=
  if 0 ≤ digits.toInt then return .ok (.value (.int i))
  else match powerOfTen? digits.toInt.natAbs with
    | none => return .ok (.value (.int 0))
    | some step => roundStep i step

/-- Rounding up or not, as that is decided, gives the nearest multiple. -/
lemma isNearestMultiple_roundsUp {step : Nat} {q r : Int} (hr : 0 ≤ r) (hlt : r < step) :
    IsNearestMultiple step (q * step + r)
      ((if roundsUp q (2 * r) step then q + 1 else q) * step) := by
  apply IsNearestMultiple.of_half
  have hup : (q + 1) * (step : Int) = q * step + step := by rw [add_mul, one_mul]
  unfold roundsUp
  rcases lt_trichotomy (2 * r) step with h | h | h
  · rw [compare_lt_iff_lt.mpr h]
    left
    simp only [Bool.false_eq_true, if_false]
    omega
  · rw [compare_eq_iff_eq.mpr h]
    right
    by_cases hq : Even q
    · have heven : q.tmod 2 = 0 := Int.tmod_eq_zero_of_dvd (even_iff_two_dvd.mp hq)
      simp only [heven, bne_self_eq_false, Bool.false_eq_true, if_false]
      exact ⟨by omega, hq⟩
    · have hodd : q.tmod 2 ≠ 0 := fun hzero =>
        hq (even_iff_two_dvd.mpr (Int.dvd_of_tmod_eq_zero hzero))
      simp only [bne_iff_ne.mpr hodd, if_true, hup]
      exact ⟨by omega, Int.even_add_one.mpr hq⟩
  · rw [compare_gt_iff_gt.mpr h]
    left
    simp only [if_true, hup]
    omega

/-- Where the doubled remainder and the next quotient fit, rounding takes place in words. -/
lemma roundStep_eq {i step q r : Int64} (heuclidean : euclidean i step = .ok (q, r))
    (hdoubled : Integer.Fits (2 * r.toInt)) (hnext : Integer.Fits (q.toInt + 1)) :
    roundStep i step = .ok (Answer.int ((if roundsUp q.toInt (2 * r.toInt) step.toInt
      then q.toInt + 1 else q.toInt) * step.toInt)) := by
  obtain ⟨doubled, hword, hdoubled'⟩ := exists_word hdoubled
  obtain ⟨next, hword', hnext'⟩ := exists_word hnext
  unfold roundStep
  rw [heuclidean]
  show (word (2 * r.toInt)).bind _ = _
  rw [hword]
  show (if roundsUp q.toInt doubled.toInt step.toInt then (word (q.toInt + 1)).bind _ else _) = _
  rw [hdoubled']
  by_cases hup : roundsUp q.toInt (2 * r.toInt) step.toInt
  · rw [if_pos hup, if_pos hup, hword', ← hnext']
    rfl
  · rw [if_neg hup, if_neg hup]
    rfl

/-- Rounding to a power of ten that fits a word takes place in words: the step is small enough for
twice a remainder, and large enough for one more than a quotient. -/
lemma exists_roundStep {i step : Int64} {k : Nat} (hk : 0 < k) (hk18 : k ≤ 18)
    (hstep : step.toInt = (10 ^ k : Nat)) :
    ∃ r, IsNearestMultiple (10 ^ k) i.toInt r ∧ roundStep i step = .ok (Answer.int r) := by
  have hten : 10 ^ 1 ≤ 10 ^ k := Nat.pow_le_pow_right (by decide) hk
  have hwide : 10 ^ k ≤ 10 ^ 18 := Nat.pow_le_pow_right (by decide) hk18
  generalize 10 ^ k = m at hstep hten hwide ⊢
  have hlow := i.le_toInt
  have hhigh := i.toInt_lt
  have hpos : (0 : Int) < m := by omega
  have hquotient : -2 ^ 62 ≤ i.toInt / m ∧ i.toInt / m < 2 ^ 62 :=
    ⟨Int.le_ediv_of_mul_le hpos (by omega), Int.ediv_lt_of_lt_mul hpos (by omega)⟩
  have hremainder : 0 ≤ i.toInt % m ∧ i.toInt % m < m :=
    ⟨Int.emod_nonneg i.toInt hpos.ne', Int.emod_lt_of_pos i.toInt hpos⟩
  obtain ⟨q, r, heuclidean, hq, hr⟩ := @exists_euclidean i step (by omega)
    (by rw [hstep, Integer.Fits]; omega) (by rw [hstep, Integer.Fits]; omega)
  have hsum := Int.mul_ediv_add_emod i.toInt m
  rw [hstep] at hq hr
  rw [← hq] at hquotient hsum
  rw [← hr] at hremainder hsum
  have hnearest := @isNearestMultiple_roundsUp m q.toInt r.toInt hremainder.1 hremainder.2
  rw [mul_comm q.toInt, hsum] at hnearest
  refine ⟨_, hnearest, ?_⟩
  rw [roundStep_eq heuclidean (by rw [Integer.Fits]; omega) (by rw [Integer.Fits]; omega), hstep]

/-- A power of ten fits a word up to `10 ^ 18`. -/
lemma powerOfTen?_cases (k : Nat) :
    (k ≤ 18 ∧ ∃ step : Int64, powerOfTen? k = some step ∧ step.toInt = (10 ^ k : Nat)) ∨
      18 < k ∧ powerOfTen? k = none := by
  rcases Nat.lt_or_ge 18 k with hk | hk
  · right
    have hwide : 10 ^ 19 ≤ 10 ^ k := Nat.pow_le_pow_right (by decide) hk
    have hfits : ¬ Integer.Fits (10 ^ k) := by
      rintro ⟨-, hhigh⟩
      rw [← Nat.cast_ofNat, ← Nat.cast_pow] at hhigh
      omega
    refine ⟨hk, ?_⟩
    rw [powerOfTen?, Integer.ofInt?, if_neg hfits, ite_self]
  · left
    have hwide : 10 ^ k ≤ 10 ^ 18 := Nat.pow_le_pow_right (by decide) hk
    have hfits : Integer.Fits (10 ^ k : Nat) := by
      generalize 10 ^ k = m at hwide
      rw [Integer.Fits]
      omega
    refine ⟨hk, Int64.ofInt (10 ^ k : Nat), ?_, Int64.toInt_ofInt_of_le hfits.1 hfits.2⟩
    rw [Nat.cast_pow, Nat.cast_ofNat] at hfits ⊢
    rw [powerOfTen?, if_pos (by omega), Integer.ofInt?, if_pos hfits]

/-- Rounding an integer never leaves the words, and gives what rounding on unbounded integers
gives. -/
theorem roundWord_eq (i digits : Int64) :
    roundWord i digits = .ok (Arithmetic.roundInt i digits.toInt) := by
  unfold roundWord
  by_cases hdigits : 0 ≤ digits.toInt
  · rw [if_pos hdigits, Arithmetic.roundInt, if_pos hdigits]
    rfl
  · rw [if_neg hdigits]
    rcases powerOfTen?_cases digits.toInt.natAbs with ⟨hk, step, hpower, hstep⟩ | ⟨hk, hpower⟩
    · obtain ⟨r, hr, hround⟩ := @exists_roundStep i step _ (by omega) hk hstep
      rw [hpower, Arithmetic.roundInt_eq (by omega) (by omega) hr]
      exact hround
    · rw [hpower, Arithmetic.roundInt, if_neg hdigits, if_pos hk]
      rfl

/-- Steps that are no powers of ten may be too wide to double a remainder. -/
example : roundStep (-1) (Int64.ofInt (2 ^ 63 - 1)) = .error (.overflow (2 ^ 64 - 4)) := by rfl

/-! ## Procedures that only look at their arguments -/

/-- Looks at the first argument. -/
def one (f : Value → Except Fault Answer) (args : List Value) : Trusting (Except Fault Answer) :=
  return f (← element args 0)

/-- Looks at the first two arguments. -/
def two (f : Value → Value → Except Fault Answer) (args : List Value) :
    Trusting (Except Fault Answer) :=
  return f (← element args 0) (← element args 1)

/-- Looks at the list first, which is the second argument, and then at its new element. -/
def cons (args : List Value) : Trusting (Except Fault Answer) := do
  match Lists.second (← element args 1) with
  | .ok items => return .ok (.list ((← element args 0) :: items))
  | .error fault => return .error fault

/-- Distinguishes cases by the number of arguments and what they are. -/
def round [Machine] : List Value → Trusting (Except Fault Answer)
  | [v] => return Arithmetic.round v none
  | [.int n, .int digits] => roundWord n digits
  | [v, digits] => return Arithmetic.round v (some digits)
  | args => .error (.unforeseen args.length)

/-- Chooses from all arguments, however many, or from the elements of the only one. -/
def choose (extreme : Extreme) : List Value → Trusting (Except Fault Answer)
  | [] => return .error (.noCandidate extreme)
  | first :: rest => return extreme.choose first rest

/-- The computation gives what the body gives, on all argument lists on which that is defined. -/
def Computes {α : Type} (f : List Value → Trusting α) (body : Body α) : Prop :=
  ∀ args a, body.run? args = some a → f args = .ok a

lemma computes_one (f : Value → Except Fault Answer) : Computes (one f) (.one f) := by
  intro args result h
  match args, h with
  | [a], h =>
    cases h
    rfl

lemma computes_two (f : Value → Value → Except Fault Answer) : Computes (two f) (.two f) := by
  intro args result h
  match args, h with
  | [a, b], h =>
    cases h
    rfl

lemma computes_any (f : List Value → Except Fault Answer) :
    Computes (fun args => return f args) (.any f) := by
  intro args result h
  cases h
  rfl

lemma computes_cons : Computes cons (.two Lists.cons) := by
  intro args result h
  match args, h with
  | [a, b], h =>
    cases h
    show (match Lists.second b with
      | .ok items => _
      | .error fault => _) = Except.ok (Lists.cons a b)
    unfold Lists.cons
    cases Lists.second b <;> rfl

lemma computes_round [Machine] : Computes round (.oneOrTwo Arithmetic.round) := by
  intro args result h
  match args, h with
  | [a], h =>
    cases h
    rfl
  | [a, b], h =>
    cases h
    unfold round
    split
    · next heq => cases heq
    · next n digits heq =>
      cases heq
      exact roundWord_eq n digits
    · next heq =>
      cases heq
      rfl
    · next hother => exact absurd rfl (hother a b)

lemma computes_choose (extreme : Extreme) :
    Computes (choose extreme) (.oneOrMore extreme.choose) := by
  intro args result h
  match args, h with
  | a :: rest, h =>
    cases h
    rfl

/-! ## Columns by index -/

/-- The number of elements of the shortest list. -/
def shortest (lists : List (List Value)) : Nat := (lists.map List.length).min?.getD 0

/-- The values are the elements of the lists at one index. -/
def Column (lists : List (List Value)) (i : Nat) (values : List Value) : Prop :=
  List.Forall₂ (fun list v => list[i]? = some v) lists values

lemma Column.mapM_element {lists : List (List Value)} {i : Nat} {values : List Value}
    (h : Column lists i values) : lists.mapM (element · i) = .ok values := by
  induction h with
  | nil => rfl
  | @cons list v lists values hv _ ih =>
    have helement : element list i = .ok v := by rw [element, hv]
    rw [List.mapM_cons, helement, ih]
    rfl

lemma shortest_singleton (list : List Value) : shortest [list] = list.length := rfl

lemma shortest_cons_cons (list list' : List Value) (lists : List (List Value)) :
    shortest (list :: list' :: lists) = min list.length (shortest (list' :: lists)) := by
  simp only [shortest, List.map_cons, List.min?_cons, Option.elim_some, Option.getD_some]

lemma shortest_of_nil_mem {lists : List (List Value)} (h : [] ∈ lists) : shortest lists = 0 := by
  have hmin : (lists.map List.length).min? = some 0 :=
    List.min?_eq_some_iff.mpr ⟨List.mem_map.mpr ⟨[], h, rfl⟩, fun _ _ => Nat.zero_le _⟩
  rw [shortest, hmin]
  rfl

lemma shortest_tails {list : List Value} {lists : List (List Value)} (h : [] ∉ list :: lists) :
    shortest (list :: lists) = shortest ((list :: lists).map List.tail) + 1 := by
  have hpos : 0 < list.length :=
    List.length_pos_iff.mpr fun hnil => h (hnil ▸ List.mem_cons_self)
  induction lists generalizing list with
  | nil =>
    simp only [List.map_cons, List.map_nil, shortest_singleton, List.length_tail]
    omega
  | cons list' lists ih =>
    obtain ⟨hlist, hlists⟩ := List.ne_and_not_mem_of_not_mem_cons h
    have hpos' : 0 < list'.length :=
      List.length_pos_iff.mpr fun hnil => hlists (hnil ▸ List.mem_cons_self)
    have hrest := ih hlists hpos'
    rw [List.map_cons] at hrest
    rw [shortest_cons_cons, hrest, List.map_cons, List.map_cons, shortest_cons_cons,
      List.length_tail]
    omega

lemma column_heads {lists : List (List Value)} (h : [] ∉ lists) :
    Column lists 0 (lists.filterMap List.head?) := by
  induction lists with
  | nil => exact .nil
  | cons list lists ih =>
    have hrest := ih fun hmem => h (List.mem_cons_of_mem list hmem)
    match list, h with
    | [], h => exact absurd List.mem_cons_self h
    | v :: vs, h => exact .cons rfl hrest

lemma Column.of_tails {lists : List (List Value)} {i : Nat} {values : List Value}
    (h : Column (lists.map List.tail) i values) : Column lists (i + 1) values := by
  refine (List.forall₂_map_left_iff.mp h).imp fun list v hv => ?_
  rwa [List.getElem?_tail] at hv

/-- The columns are at the indices up to the length of the shortest list. -/
lemma columns_forall₂ (list : List Value) (lists : List (List Value)) :
    List.Forall₂ (Column (list :: lists)) (List.range (shortest (list :: lists)))
      (Lists.columns list lists) := by
  induction list generalizing lists with
  | nil =>
    rw [Lists.columns, shortest_of_nil_mem List.mem_cons_self]
    exact .nil
  | cons v vs ih =>
    by_cases hnil : [] ∈ lists
    · have hany : lists.any List.isEmpty = true := List.any_eq_true.mpr ⟨[], hnil, rfl⟩
      rw [Lists.columns, if_pos hany, shortest_of_nil_mem (List.mem_cons_of_mem _ hnil)]
      exact .nil
    · have hany : ¬ lists.any List.isEmpty = true := by
        intro hany
        obtain ⟨row, hrow, hempty⟩ := List.any_eq_true.mp hany
        exact hnil (List.isEmpty_iff.mp hempty ▸ hrow)
      have hnil' : [] ∉ (v :: vs) :: lists :=
        List.not_mem_cons_of_ne_of_not_mem (List.cons_ne_nil v vs).symm hnil
      rw [Lists.columns, if_neg hany, shortest_tails hnil', List.range_succ_eq_map]
      refine .cons (column_heads hnil') (List.forall₂_map_left_iff.mpr ?_)
      exact (ih (lists.map List.tail)).imp fun i values h => Column.of_tails h

end Trusting

end SmallLisp
