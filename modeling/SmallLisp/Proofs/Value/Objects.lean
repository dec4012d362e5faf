import SmallLisp.Proofs.Value.Matching

/-!
# The objects of a value

Strings, lists and closures are objects.  `Value.objects` lists those that a value consists of, a
list before its elements; numbers and the other values without an identity are left out.
-/

namespace SmallLisp

namespace Value

/-- The identity of an object. -/
def identity? : Value → Option Identity
  | str id _ | list id _ | closure id _ => some id
  | int _ | float _ | bool _ | nil | primitive _ => none

/-- The closure, if the value is one. -/
def closure? : Value → Option Closure
  | closure _ c => some c
  | int _ | float _ | str .. | bool _ | nil | list .. | primitive _ => none

mutual

/-- The objects that a value consists of. -/
def objects : Value → List Value
  | str id text => [str id text]
  | list id items => list id items :: objectsAll items
  | closure id c => [closure id c]
  | int _ | float _ | bool _ | nil | primitive _ => []

/-- The objects that several values consist of. -/
def objectsAll : List Value → List Value
  | [] => []
  | v :: vs => v.objects ++ objectsAll vs

end

lemma mem_objectsAll {o : Value} {vs : List Value} :
    o ∈ objectsAll vs ↔ ∃ v ∈ vs, o ∈ v.objects := by
  induction vs with
  | nil => simp [objectsAll]
  | cons v vs ih => simp [objectsAll, ih]

lemma objectsAll_subset {vs ws : List Value} (h : vs ⊆ ws) : objectsAll vs ⊆ objectsAll ws := by
  intro o ho
  obtain ⟨v, hv, ho⟩ := mem_objectsAll.mp ho
  exact mem_objectsAll.mpr ⟨v, h hv, ho⟩

lemma objectsAll_subset_list (id : Identity) (items : List Value) :
    objectsAll items ⊆ (list id items).objects :=
  List.subset_cons_self _ _

/-- An object is one of its objects. -/
lemma mem_objects_self {v : Value} {id : Identity} (h : v.identity? = some id) : v ∈ v.objects := by
  cases v with
  | str | list | closure => exact List.mem_cons_self
  | _ => cases h

end Value

/-- The objects that an answer consists of, apart from the one that is made to hold it. -/
def Answer.objects : Answer → List Value
  | value v => v.objects
  | string _ => []
  | list items => Value.objectsAll items

end SmallLisp
