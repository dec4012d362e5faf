import Mathlib
import SmallLisp.Form.Atom
import SmallLisp.Proofs.Number.Literal

/-!
# Forms as trees

A form is a tree with lists as its nodes and what atoms stand for as its leaves.  Here are the
views of that tree that do not depend on how it is evaluated: the classes of tokens that write it
out, its leaves, and the tree without the places of its nodes.  `forms_induction` is the induction
that goes with all of them.
-/

namespace SmallLisp.Form

/-! ## Nodes and leaves -/

mutual

/-- The classes of the tokens that write the form out. -/
def kinds : Form → List Token.Kind
  | list items _ => .opening :: (kindsAll items ++ [.closing])
  | int .. | float .. | str .. | symbol .. => [.atom]

/-- The classes of the tokens that write several forms out. -/
def kindsAll : List Form → List Token.Kind
  | [] => []
  | form :: forms => form.kinds ++ kindsAll forms

end

mutual

/-- The parts of the form that are not lists, in order. -/
def leaves : Form → List Form
  | list items _ => leavesAll items
  | int value span => [int value span]
  | float value span => [float value span]
  | str text span => [str text span]
  | symbol name span => [symbol name span]

/-- The leaves of several forms, in order. -/
def leavesAll : List Form → List Form
  | [] => []
  | form :: forms => form.leaves ++ leavesAll forms

end

/-- Whether the form is a list. -/
def isList : Form → Bool
  | list .. => true
  | int .. | float .. | str .. | symbol .. => false

/-- Induction on the forms of a list and on the items of the lists among them. -/
@[elab_as_elim]
theorem forms_induction {motive : List Form → Prop} (nil : motive [])
    (leaf : ∀ form fs, form.isList = false → motive fs → motive (form :: fs))
    (list : ∀ items span fs, motive items → motive fs → motive (.list items span :: fs)) :
    ∀ fs, motive fs
  | [] => nil
  | .list items span :: fs =>
    list items span fs (forms_induction nil leaf list items) (forms_induction nil leaf list fs)
  | .int _ _ :: fs | .float _ _ :: fs | .str _ _ :: fs | .symbol _ _ :: fs =>
    leaf _ fs rfl (forms_induction nil leaf list fs)

/-- No atom stands for a list. -/
lemma isList_of_ofAtom {text : String} {span : Span} {form : Form}
    (h : ofAtom text span = .ok form) : form.isList = false := by
  unfold ofAtom at h
  simp only at h
  split at h
  · split at h
    · cases h
      rfl
    · cases h
  · split at h
    · cases h
      rfl
    · split at h
      · cases h
        rfl
      · cases h
        rfl

lemma kinds_of_isList_eq_false {form : Form} (h : form.isList = false) : form.kinds = [.atom] := by
  cases form with
  | list => cases h
  | _ => simp [kinds]

lemma leaves_of_isList_eq_false {form : Form} (h : form.isList = false) :
    form.leaves = [form] := by
  cases form with
  | list => cases h
  | _ => simp [leaves]

lemma nodes_of_isList_eq_false {form : Form} (h : form.isList = false) : form.nodes = [form] := by
  cases form with
  | list => cases h
  | _ => simp [nodes]

/-! ## Parts of forms -/

lemma mem_nodes_self (form : Form) : form ∈ form.nodes := by
  cases form <;> simp [nodes]

lemma mem_nodesAll {node : Form} {forms : List Form} :
    node ∈ nodesAll forms ↔ ∃ form ∈ forms, node ∈ form.nodes := by
  induction forms with
  | nil => simp [nodesAll]
  | cons form forms ih => simp [nodesAll, ih]

/-- The parts that are not lists are the leaves. -/
lemma mem_leavesAll {node : Form} {forms : List Form} (h : node ∈ nodesAll forms)
    (hleaf : node.isList = false) : node ∈ leavesAll forms := by
  induction forms using forms_induction with
  | nil => simp [nodesAll] at h
  | leaf leaf fs hfirst ih =>
    rw [nodesAll, nodes_of_isList_eq_false hfirst] at h
    rw [leavesAll, leaves_of_isList_eq_false hfirst]
    rcases List.mem_append.mp h with h | h
    · exact List.mem_append_left _ h
    · exact List.mem_append_right _ (ih h)
  | list items span fs ihItems ihRest =>
    rw [nodesAll, nodes, List.cons_append] at h
    rw [leavesAll, leaves]
    rcases List.mem_cons.mp h with rfl | h
    · cases hleaf
    · rcases List.mem_append.mp h with h | h
      · exact List.mem_append_left _ (ihItems h)
      · exact List.mem_append_right _ (ihRest h)

/-- The parts of a part are parts. -/
lemma nodes_subset_nodesAll {forms : List Form} {form : Form} (h : form ∈ nodesAll forms) :
    form.nodes ⊆ nodesAll forms := by
  induction forms using forms_induction with
  | nil => simp [nodesAll] at h
  | leaf leaf fs hleaf ih =>
    rw [nodesAll, nodes_of_isList_eq_false hleaf] at h ⊢
    rcases List.mem_cons.mp h with rfl | h
    · rw [nodes_of_isList_eq_false hleaf]
      simp
    · exact List.subset_cons_of_subset _ (ih h)
  | list items span fs ihItems ihRest =>
    rw [nodesAll, nodes] at h ⊢
    rcases List.mem_append.mp h with h | h
    · refine List.subset_append_of_subset_left _ ?_
      rcases List.mem_cons.mp h with rfl | h
      · rw [nodes]
        exact List.Subset.refl _
      · exact List.subset_cons_of_subset _ (ihItems h)
    · exact List.subset_append_of_subset_right _ (ihRest h)

/-! ## Forms without their places -/

mutual

/-- The form as it would be read nowhere.  Only its spans are forgotten, and which one a double is
of those that are no numbers. -/
def bare : Form → Form
  | int value _ => int value .nowhere
  | float value _ => float (Binary64.canonical value) .nowhere
  | str text _ => str text .nowhere
  | symbol name _ => symbol name .nowhere
  | list items _ => list (bareAll items) .nowhere

/-- Several forms without their places. -/
def bareAll : List Form → List Form
  | [] => []
  | form :: forms => form.bare :: bareAll forms

end

lemma bareAll_eq_map (forms : List Form) : bareAll forms = forms.map bare := by
  induction forms with
  | nil => rfl
  | cons form forms ih => rw [bareAll, ih, List.map_cons]

/-- A symbol without its place was one. -/
lemma exists_symbol_of_bare {form : Form} {name : String} (h : form.bare = symbol name .nowhere) :
    ∃ span, form = symbol name span := by
  cases form with
  | symbol name' span =>
    cases h
    exact ⟨span, rfl⟩
  | _ => cases h

/-- A list without its places was one. -/
lemma exists_list_of_bare {form : Form} {items : List Form} (h : form.bare = list items .nowhere) :
    ∃ items' span, form = list items' span ∧ items'.map bare = items := by
  cases form with
  | list items' span =>
    rw [bare, bareAll_eq_map] at h
    exact ⟨items', span, rfl, (list.inj h).1⟩
  | _ => cases h

/-- What follows a symbol at the head of a list without its places followed it there. -/
lemma exists_headed_of_bare {form : Form} {name : String} {rest : List Form}
    (h : form.bare = list (symbol name .nowhere :: rest) .nowhere) :
    ∃ place rest' span, form = list (symbol name place :: rest') span ∧ rest'.map bare = rest := by
  obtain ⟨items, span, rfl, hitems⟩ := exists_list_of_bare h
  obtain ⟨head, rest', rfl, hhead, hrest⟩ := List.map_eq_cons_iff.mp hitems
  obtain ⟨place, rfl⟩ := exists_symbol_of_bare hhead
  exact ⟨place, rest', span, rfl, hrest⟩

lemma exists_pair_of_bare {forms : List Form} {a b : Form} (h : forms.map bare = [a, b]) :
    ∃ form form', forms = [form, form'] ∧ form.bare = a ∧ form'.bare = b := by
  obtain ⟨form, rest, rfl, ha, hrest⟩ := List.map_eq_cons_iff.mp h
  obtain ⟨form', rfl, hb⟩ := List.map_eq_singleton_iff.mp hrest
  exact ⟨form, form', rfl, ha, hb⟩

lemma isList_bare (form : Form) : form.bare.isList = form.isList := by
  cases form <;> simp [Form.bare, Form.isList]

/-- Forms that are the same up to spans are lists alike. -/
lemma isList_of_bareAll_eq {fs gs : List Form} (h : bareAll gs = bareAll fs)
    (lists : ∀ form ∈ fs, form.isList) : ∀ form ∈ gs, form.isList := by
  induction gs generalizing fs with
  | nil => simp
  | cons g gs ih =>
    cases fs with
    | nil => simp [bareAll] at h
    | cons f fs =>
      simp only [bareAll, List.cons.injEq] at h
      simp only [List.forall_mem_cons] at lists ⊢
      refine ⟨?_, ih h.2 lists.2⟩
      rw [← isList_bare, h.1, isList_bare]
      exact lists.1

end SmallLisp.Form
