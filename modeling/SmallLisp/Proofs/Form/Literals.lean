import SmallLisp.Interpreter
import SmallLisp.Proofs.Form.Nesting
import SmallLisp.Proofs.Form.Single

/-!
# String literals and their places

The evaluator tells the object of a string literal by the place of the literal alone.  That is
enough, because the place determines the text: what a literal of a source says can be read off the
source there (`Span.literal?`), and it is what the form says that was read
(`Form.writtenIn_of_read`).
-/

namespace SmallLisp

/-- The text of the string literal at a place in the source, if there is one. -/
def Span.literal? (source : String) (span : Span) : Option String :=
  match (span.slice? source).map (Form.ofAtom · span) with
  | some (.ok (.str text _)) => some text
  | _ => none

namespace Form

/-- At the places of the string literals in the form there are these texts. -/
def WrittenIn (literals : Span → Option String) (form : Form) : Prop :=
  ∀ text span, .str text span ∈ form.nodes → literals span = some text

lemma WrittenIn.item {literals : Span → Option String} {items : List Form} {span : Span}
    {form : Form} (h : (list items span).WrittenIn literals) (hform : form ∈ items) :
    form.WrittenIn literals := by
  intro text place hnode
  refine h text place ?_
  rw [nodes]
  exact List.mem_cons_of_mem _ (mem_nodesAll.mpr ⟨form, hform, hnode⟩)

/-- What was read from a source agrees with the source about its literals. -/
theorem writtenIn_of_read {source : String} {fs : List Form} (h : read source = .ok fs) :
    ∀ form ∈ fs, form.WrittenIn (Span.literal? source) := by
  obtain ⟨-, -, ts, htiling, hspelling⟩ := read_eq_ok_iff.mp h
  intro form hform text span hnode
  obtain ⟨before, mid, after, rfl, hmid⟩ :=
    hspelling.exists_tokens (mem_nodesAll.mpr ⟨form, hform, hnode⟩)
  -- a literal is spelled by a single token
  cases hmid with
  | @atom t _ _ _ kind reads tail =>
    cases tail
    have hsliced := (htiling.standsIn rfl paired_nil t (by simp)).sliced
    obtain rfl : span = t.span := (span_of_ofAtom reads).1
    simp only [Span.literal?, hsliced, Option.map_some, reads]

end Form

/-! ## A source that is a single form -/

/-- A source that is read as a single form is read as this form alone. -/
lemma read_of_readOne {source : String} {form : Form} (h : readOne source = .ok form) :
    read source = .ok [form] := by
  unfold readOne at h
  split at h
  · cases h
  · next tokens htokens =>
    cases hone : parseOne tokens with
    | error e =>
      rw [hone] at h
      cases h
    | ok f =>
      rw [hone] at h
      cases h
      obtain ⟨hlist, hspelling⟩ := parseOne_eq_ok_iff.mp hone
      have hparse : parseAll tokens = .ok [form] :=
        parseAll_eq_ok_iff.mpr ⟨by simp, by simpa using hlist, hspelling⟩
      cases tokens with
      | nil => cases hparse
      | cons t ts =>
        simp only [read, htokens, hparse]
        rfl

end SmallLisp
