import SmallLisp.Proofs.Value.Equality
import SmallLisp.Proofs.Value.Objects

/-!
# Three equalities

Of the three ways to compare values, `Value.identical` is the finest and `Value.equal` the coarsest
one (`Value.same_of_identical`, `Value.equal_of_same`).  That two identical values have the same
contents is not in the values themselves: objects are compared by their identities alone.  It holds
in a heap, where an identity belongs to one object only (`Value.Coherent`), and even there it fails
for a NaN, which is identical to itself but not the same.
-/

namespace SmallLisp

/-- Doubles of the same bits are equal, unless they are no number. -/
lemma Binary64.equal_of_bits {x y : Double} (h : x.bits = y.bits) :
    equal x y = !isNaN x := by
  have hmagnitude : magnitude x = magnitude y := by rw [magnitude, magnitude, h]
  have hnan : isNaN x = isNaN y := by rw [isNaN, isNaN, hmagnitude]
  have hrank : rank x = rank y := by rw [rank, rank, isNegative, isNegative, hmagnitude, h]
  rw [Bool.eq_iff_iff, equal_iff, ← hnan, Bool.not_eq_true']
  simp [hrank]

namespace Value

variable {a b c : Value}

/-! ## Laws -/

lemma identical_self (a : Value) : a.identical a = true := by
  cases a <;> simp [identical]

lemma identical_comm (a b : Value) : a.identical b = b.identical a := by
  cases a <;> cases b <;> first | rfl | exact BEq.comm

lemma identical_trans (h : a.identical b = true) (h' : b.identical c = true) :
    a.identical c = true := by
  cases a <;> cases b <;> simp only [identical, Bool.false_eq_true] at h <;>
    cases c <;> simp_all [identical]

lemma sameAll_comm (vs ws : List Value) : sameAll vs ws = sameAll ws vs := by
  induction vs using values_induction generalizing ws with
  | nil => cases ws <;> rfl
  | scalar v vs hv ih =>
    rcases ws with _ | ⟨w, ws⟩
    · rfl
    · rw [sameAll, sameAll, ih]
      congr 1
      cases v with
      | list => cases hv
      | float x => cases w <;> first | rfl | exact Binary64.equal_comm _ _
      | _ => cases w <;> first | rfl | exact BEq.comm
  | list id items vs ihItems ih =>
    rcases ws with _ | ⟨w, ws⟩
    · rfl
    · rw [sameAll, sameAll, ih]
      congr 1
      cases w with
      | list => rw [same, same, ihItems]
      | _ => rfl

lemma same_comm (a b : Value) : a.same b = b.same a := by
  simpa [sameAll] using sameAll_comm [a] [b]

lemma sameAll_self (vs : List Value) : sameAll vs vs = !anyHasNaN vs := by
  induction vs using values_induction with
  | nil => rfl
  | scalar v vs hv ih =>
    rw [sameAll, anyHasNaN, ih, Bool.not_or]
    congr 1
    cases v with
    | list => cases hv
    | float x => exact Binary64.equal_self x
    | _ => simp [same, hasNaN]
  | list id items vs ihItems ih =>
    rw [sameAll, anyHasNaN, ih, Bool.not_or, same, hasNaN, ihItems]

/-- A value is the same as itself, unless there is a NaN in it. -/
lemma same_self (v : Value) : v.same v = !v.hasNaN := by
  simpa [sameAll, anyHasNaN] using sameAll_self [v]

/-! ## From one to the next -/

/-- No two different objects among the values have the same identity. -/
def Coherent (vs : List Value) : Prop :=
  ∀ o ∈ objectsAll vs, ∀ o' ∈ objectsAll vs, o.identity? = o'.identity? → o = o'

lemma Coherent.subset {vs ws : List Value} (h : Coherent vs) (hsub : ws ⊆ vs) : Coherent ws :=
  fun o ho o' ho' => h o (objectsAll_subset hsub ho) o' (objectsAll_subset hsub ho')

/-- Objects with the same identity are one object. -/
lemma Coherent.eq {id : Identity} (h : Coherent [a, b]) (ha : a.identity? = some id)
    (hb : b.identity? = some id) : a = b :=
  h a (mem_objectsAll.mpr ⟨a, by simp, mem_objects_self ha⟩) b
    (mem_objectsAll.mpr ⟨b, by simp, mem_objects_self hb⟩) (ha.trans hb.symm)

/-- Identical values have the same contents, if identities belong to one object only. -/
theorem same_of_identical (coherent : Coherent [a, b]) (ha : a.hasNaN = false)
    (h : a.identical b = true) : a.same b = true := by
  have hobject {id : Identity} (hid : a.identity? = some id) (hid' : b.identity? = some id) :
      a.same b = true := by
    rw [← coherent.eq hid hid', same_self, ha]
    rfl
  cases a with
  | int | bool | nil | primitive => cases b <;> exact h
  | float x =>
    cases b with
    | float y =>
      rw [identical, beq_iff_eq] at h
      rw [same, Binary64.equal_of_bits h, Bool.not_eq_true']
      exact ha
    | _ => cases h
  | str | list | closure =>
    cases b <;> first | exact hobject rfl (congrArg some (eq_of_beq h).symm) | cases h

lemma equalAll_of_sameAll {vs ws : List Value} (h : sameAll vs ws = true) :
    equalAll vs ws = true := by
  induction vs using values_induction generalizing ws with
  | nil =>
    cases ws with
    | nil => rfl
    | cons => cases h
  | scalar v vs hv ih =>
    cases ws with
    | nil => cases h
    | cons w ws =>
      rw [sameAll, Bool.and_eq_true] at h
      rw [equalAll, Bool.and_eq_true]
      refine ⟨?_, ih h.2⟩
      cases v with
      | list => cases hv
      | _ => cases w <;> first | exact h.1 | cases h.1
  | list id items vs ihItems ih =>
    cases ws with
    | nil => cases h
    | cons w ws =>
      rw [sameAll, Bool.and_eq_true] at h
      rw [equalAll, Bool.and_eq_true]
      refine ⟨?_, ih h.2⟩
      cases w with
      | list id' items' =>
        rw [equal]
        exact ihItems (by simpa only [same] using h.1)
      | _ => cases h.1

/-- Values with the same contents are equal. -/
theorem equal_of_same (h : a.same b = true) : a.equal b = true := by
  simpa [equalAll] using @equalAll_of_sameAll [a] [b] (by simpa [sameAll] using h)

end Value

end SmallLisp
