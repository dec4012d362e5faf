import SmallLisp.Value

/-!
# Bindings

A finite map from names to values.  A name is bound at most once; binding it again replaces its
value and keeps its place.
-/

namespace SmallLisp

/-! ## Entries -/

def findBinding? (name : String) : List (String × Value) → Option Value
  | [] => none
  | (n, v) :: rest => if n = name then some v else findBinding? name rest

/-- The entries after binding a name. -/
def bindEntry (name : String) (value : Value) : List (String × Value) → List (String × Value)
  | [] => [(name, value)]
  | (n, v) :: rest =>
    if n = name then (name, value) :: rest else (n, v) :: bindEntry name value rest

/-- Binding a name adds it behind the names, unless it is one of them already. -/
theorem bindEntry_names (name : String) (value : Value) (entries : List (String × Value)) :
    (bindEntry name value entries).map Prod.fst =
      if name ∈ entries.map Prod.fst then entries.map Prod.fst
      else entries.map Prod.fst ++ [name] := by
  induction entries with
  | nil => rfl
  | cons entry rest ih =>
    obtain ⟨n, v⟩ := entry
    by_cases h : n = name
    · simp [bindEntry, h]
    · simp only [bindEntry, h, if_false, List.map_cons, ih, List.mem_cons, Ne.symm h, false_or]
      split <;> rfl

/-- After binding a name, the new value is found under it, and what was bound before under every
other name. -/
theorem findBinding?_bindEntry (name : String) (value : Value) (entries : List (String × Value))
    (m : String) :
    findBinding? m (bindEntry name value entries) =
      if m = name then some value else findBinding? m entries := by
  induction entries with
  | nil =>
    by_cases h : m = name
    · simp [bindEntry, findBinding?, h]
    · simp [bindEntry, findBinding?, h, Ne.symm h]
  | cons entry rest ih =>
    obtain ⟨n, v⟩ := entry
    by_cases hn : n = name
    · subst hn
      by_cases hm : m = n
      · simp [bindEntry, findBinding?, hm]
      · simp [bindEntry, findBinding?, hm, Ne.symm hm]
    · by_cases hm : n = m
      · subst hm
        simp [bindEntry, findBinding?, hn]
      · simp [bindEntry, findBinding?, hn, hm, ih]

/-! ## Maps -/

/-- A finite map from names to values. -/
structure Bindings where
  /-- The bound names with their values, in the order in which they were first bound. -/
  entries : List (String × Value) := []
  /-- No name is bound twice. -/
  nodup : (entries.map Prod.fst).Nodup := by simp

namespace Bindings

instance : EmptyCollection Bindings := ⟨{}⟩

/-- The bound names, in the order in which they were first bound. -/
def names (b : Bindings) : List String := b.entries.map Prod.fst

def find? (b : Bindings) (name : String) : Option Value := findBinding? name b.entries

def size (b : Bindings) : Nat := b.entries.length

/-- The map with a name bound to a value. -/
def insert (b : Bindings) (name : String) (value : Value) : Bindings where
  entries := bindEntry name value b.entries
  nodup := by
    rw [bindEntry_names]
    split
    · exact b.nodup
    · next h =>
      rw [List.nodup_append]
      refine ⟨b.nodup, by simp, ?_⟩
      intro a ha b hb hab
      simp only [List.mem_singleton] at hb
      exact h (hb ▸ hab ▸ ha)

@[simp] theorem find?_empty (name : String) : (∅ : Bindings).find? name = none := rfl

theorem find?_insert (b : Bindings) (name : String) (value : Value) (m : String) :
    (b.insert name value).find? m = if m = name then some value else b.find? m :=
  findBinding?_bindEntry name value b.entries m

theorem names_insert (b : Bindings) (name : String) (value : Value) :
    (b.insert name value).names = if name ∈ b.names then b.names else b.names ++ [name] :=
  bindEntry_names name value b.entries

/-- The map with several names bound, one after the other; a later binding of a name wins. -/
def insertAll (b : Bindings) (entries : List (String × Value)) : Bindings :=
  entries.foldl (fun b (name, value) => b.insert name value) b

/-- The bound names in the order of their code points. -/
def sortedNames (b : Bindings) : List String := b.names.mergeSort (fun m n => decide (m ≤ n))

end Bindings

end SmallLisp
