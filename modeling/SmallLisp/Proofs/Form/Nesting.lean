import SmallLisp.Proofs.Evaluation.Isolation
import SmallLisp.Proofs.Form.Slices

/-!
# How deep a form is nested

A form is enclosed by those `lambda` forms that it is a part of (`Form.Enclosed`).  In a program
that was read there is no doubt how many these are, although the evaluator only hands on the form
itself and not how it got there (`Form.Enclosed.unique`): no two parts of such a program begin at
the same place.  A list begins before all of its items, and of two parts that are not inside each
other the second one begins behind the first one; so the places where parts begin are those of some
of the tokens, in the same order (`Spelling.starts_sublist`).
-/

namespace SmallLisp

namespace Form

/-- The form is a part of the program, and `k` is the number of `lambda` forms around it. -/
inductive Enclosed (program : List Form) : Nat → Form → Prop
  | top {form : Form} (h : form ∈ program) : Enclosed program 0 form
  | item {k : Nat} {items : List Form} {span : Span} {form : Form}
      (list : Enclosed program k (.list items span)) (h : form ∈ items) :
      Enclosed program (if isLambda items then k + 1 else k) form

mutual

/-- The parts of the form in order, each with the number of `lambda` forms around it; around the
form itself there are `k`. -/
def levels (k : Nat) : Form → List (Form × Nat)
  | list items span =>
    (list items span, k) :: levelsAll (if isLambda items then k + 1 else k) items
  | int value span => [(int value span, k)]
  | float value span => [(float value span, k)]
  | str text span => [(str text span, k)]
  | symbol name span => [(symbol name span, k)]

/-- The parts of several forms with the numbers of `lambda` forms around them. -/
def levelsAll (k : Nat) : List Form → List (Form × Nat)
  | [] => []
  | form :: forms => form.levels k ++ levelsAll k forms

end

lemma levels_of_isList_eq_false {form : Form} (h : form.isList = false) (k : Nat) :
    form.levels k = [(form, k)] := by
  cases form with
  | list => cases h
  | _ => simp [levels]

lemma map_fst_levelsAll (k : Nat) (forms : List Form) :
    (levelsAll k forms).map Prod.fst = nodesAll forms := by
  induction forms using forms_induction generalizing k with
  | nil => rfl
  | leaf form fs hleaf ih =>
    rw [levelsAll, nodesAll, levels_of_isList_eq_false hleaf, nodes_of_isList_eq_false hleaf,
      List.map_append, ih]
    rfl
  | list items span fs ihItems ihRest =>
    rw [levelsAll, nodesAll, levels, nodes, List.map_append, List.map_cons, ihItems, ihRest]

lemma mem_levelsAll_of_mem {k : Nat} {form : Form} {forms : List Form} (h : form ∈ forms) :
    (form, k) ∈ levelsAll k forms := by
  induction forms with
  | nil => cases h
  | cons first rest ih =>
    rw [levelsAll]
    rcases List.mem_cons.mp h with rfl | h
    · refine List.mem_append_left _ ?_
      cases form <;> simp [levels]
    · exact List.mem_append_right _ (ih h)

/-- Between the parts of a form, the number grows at the `lambda` forms. -/
lemma mem_levelsAll_of_item {j k : Nat} {items forms : List Form} {span : Span} {form : Form}
    (h : (.list items span, k) ∈ levelsAll j forms) (hform : form ∈ items) :
    (form, if isLambda items then k + 1 else k) ∈ levelsAll j forms := by
  induction forms using forms_induction generalizing j with
  | nil => cases h
  | leaf leaf fs hleaf ih =>
    rw [levelsAll, levels_of_isList_eq_false hleaf] at h ⊢
    rcases List.mem_cons.mp h with heq | h
    · rw [← (Prod.mk.inj heq).1] at hleaf
      cases hleaf
    · exact List.mem_cons_of_mem _ (ih h)
  | list items' span' fs ihItems ihRest =>
    rw [levelsAll, levels] at h ⊢
    rcases List.mem_append.mp h with h | h
    · refine List.mem_append_left _ (List.mem_cons_of_mem _ ?_)
      rcases List.mem_cons.mp h with heq | h
      · cases heq
        exact mem_levelsAll_of_mem hform
      · exact ihItems h
    · exact List.mem_append_right _ (ihRest h)

lemma Enclosed.mem_levelsAll {program : List Form} {k : Nat} {form : Form}
    (h : Enclosed program k form) : (form, k) ∈ levelsAll 0 program := by
  induction h with
  | top h => exact mem_levelsAll_of_mem h
  | item _ h ih => exact mem_levelsAll_of_item ih h

/-- If no part occurs twice, the number of `lambda` forms around a part is determined. -/
lemma Enclosed.unique_of_nodup {program : List Form} (hnodup : (nodesAll program).Nodup)
    {k k' : Nat} {form : Form} (h : Enclosed program k form) (h' : Enclosed program k' form) :
    k = k' := by
  rw [← map_fst_levelsAll 0] at hnodup
  have hpair : (form, k) = (form, k') :=
    List.inj_on_of_nodup_map hnodup h.mem_levelsAll h'.mem_levelsAll rfl
  exact (Prod.mk.inj hpair).2

end Form

/-! ## Programs that were read -/

/-- The parts of spelled forms begin where some of the tokens begin, in the same order. -/
lemma Spelling.starts_sublist {ts : List Token} {fs : List Form} (h : Spelling ts fs)
    (hordered : ts.Pairwise fun s t => s.span.start < t.span.start) :
    ((Form.nodesAll fs).map (·.span.start)).Sublist (ts.map (·.span.start)) := by
  induction h with
  | nil => exact .slnil
  | @atom t ts form forms kind reads tail ih =>
    obtain ⟨-, hrest⟩ := List.pairwise_cons.mp hordered
    rw [Form.nodesAll, Form.nodes_of_isList_eq_false (Form.isList_of_ofAtom reads),
      List.singleton_append, List.map_cons, List.map_cons, (Form.span_of_ofAtom reads).1]
    exact (ih hrest).cons_cons _
  | @list o c inner ts items forms opening closing inside tail ihInside ihTail =>
    obtain ⟨hafter, hinner, htail, -⟩ :
        (∀ t ∈ inner ++ c :: ts, o.span.start < t.span.start) ∧
        inner.Pairwise (fun s t => s.span.start < t.span.start) ∧
          (c :: ts).Pairwise (fun s t => s.span.start < t.span.start) ∧ _ := by
      simpa only [List.pairwise_cons, List.pairwise_append] using hordered
    have hstart : (o.span.cover c.span).start = o.span.start :=
      Nat.min_eq_left (Nat.le_of_lt (hafter c (by simp)))
    simp only [Form.nodesAll, Form.nodes, List.cons_append, List.map_cons, List.map_append]
    rw [show (Form.list items (o.span.cover c.span)).span.start = o.span.start from hstart]
    have hrest := ihTail (List.pairwise_cons.mp htail).2
    exact ((ihInside hinner).append (hrest.cons c.span.start)).cons_cons o.span.start

/-- In a program that was read, every part is enclosed by one number of `lambda` forms only. -/
theorem Form.Enclosed.unique {source : String} {program : List Form}
    (hread : read source = .ok program) {k k' : Nat} {form : Form}
    (h : Form.Enclosed program k form) (h' : Form.Enclosed program k' form) : k = k' := by
  obtain ⟨-, -, ts, htiling, hspelling⟩ := read_eq_ok_iff.mp hread
  have hspans : ∀ t ∈ ts, t.span.start < t.span.stop := fun t ht => (htiling.within t ht).2.1
  have hordered : ts.Pairwise fun s t => s.span.start < t.span.start := by
    refine htiling.ordered.1.imp_of_mem fun {s t} hs _ hst => ?_
    exact Nat.lt_of_lt_of_le (hspans s hs) hst
  have hstarts : (ts.map (·.span.start)).Nodup :=
    (List.pairwise_map.mpr hordered).imp Nat.ne_of_lt
  have hnodes := (hspelling.starts_sublist hordered).nodup hstarts
  exact h.unique_of_nodup hnodes.of_map h'

end SmallLisp
