import SmallLisp.Proofs.Form.RoundTrip
import SmallLisp.Proofs.Token.Unterminated

/-!
# Where forms and errors of reading stand

Everything that reading gives a place to can be found at that place: the nodes of the forms that
are read (`standsIn_of_read`), and the errors of a source that cannot be read (`read_error_cases`).

The places of tokens are known from their tiling.  A list stands from its opening to its closing
parenthesis, which follow each other in the tokens, so that between them there is a part of the
source.  An error of the reader is about one token (`parseAll_error`); an error of the scanner is
about a string that is never closed (`tokenize_error_cases`).
-/

namespace SmallLisp

/-! ## Errors of the reader -/

/-- Which token an error of the reader is about. -/
inductive FormError.Concerns : FormError → Token → Prop
  | unexpected (t : Token) : Concerns (.unexpected t.text t.span) t
  | outOfRange (t : Token) : Concerns (.outOfRange t.text t.span) t
  | unclosed (t : Token) (opening : t.kind = .opening) : Concerns (.unclosed t.span) t

lemma Form.error_of_ofAtom {text : String} {span : Span} {e : FormError}
    (h : ofAtom text span = .error e) : e = .outOfRange text span := by
  unfold ofAtom at h
  simp only at h
  repeat' split at h
  all_goals cases h
  rfl

/-- An error in a step is about the token that is read. -/
lemma Reader.concerns_of_step {r : Reader} {t : Token} {e : FormError} (h : r.step t = .error e) :
    e.Concerns t := by
  unfold step at h
  split at h
  · cases h
  · cases h
    exact .unexpected t
  · cases h
  · cases h
  · cases hform : Form.ofAtom t.text t.span with
    | ok form =>
      rw [hform] at h
      cases h
    | error e' =>
      rw [hform] at h
      cases h
      rw [Form.error_of_ofAtom hform]
      exact .outOfRange t

lemma Reader.concerns_of_foldlM {r : Reader} {ts : List Token} {e : FormError}
    (h : ts.foldlM step r = .error e) : ∃ t ∈ ts, e.Concerns t := by
  induction ts generalizing r with
  | nil => cases h
  | cons t ts ih =>
    rw [List.foldlM_cons] at h
    cases hstep : r.step t with
    | error e' =>
      rw [hstep] at h
      cases h
      exact ⟨t, List.mem_cons_self, concerns_of_step hstep⟩
    | ok next =>
      rw [hstep] at h
      obtain ⟨u, hu, hconcerns⟩ := ih h
      exact ⟨u, List.mem_cons_of_mem _ hu, hconcerns⟩

/-- An error of reading tokens, of which there is one at least, is about one of them. -/
theorem parseAll_error {ts : List Token} {e : FormError} (hts : ts ≠ [])
    (h : parseAll ts = .error e) : ∃ t ∈ ts, e.Concerns t := by
  unfold parseAll at h
  rw [if_neg (by simpa using hts)] at h
  cases hrun : ts.foldlM Reader.step {} with
  | error e' =>
    rw [hrun] at h
    cases h
    exact Reader.concerns_of_foldlM hrun
  | ok r =>
    rw [hrun] at h
    have hread := Reader.hasRead_nil.foldlM_step hrun
    rw [List.nil_append] at hread
    cases hread with
    | mk spelled lists opened =>
      cases opened with
      | nil => cases h
      | @cons o _ _ _ _ outer opening inner =>
        cases h
        exact ⟨o, by simp, .unclosed o opening⟩

/-! ## Forms -/

lemma Token.StandsIn.covers {t : Token} {cs : List Char} (h : t.StandsIn cs) :
    t.span.Covers cs t.text.toList := by
  obtain ⟨before, text, after, hcs, ht, hlexeme, -⟩ := h
  rw [ht]
  refine ⟨before, after, ?_, ?_, ?_⟩
  · simpa [Token.ofChars] using hcs
  · simpa [Token.ofChars] using hlexeme.ne_nil
  · simp [Token.ofChars]

namespace Form

/-- The form stands in the text where its span says; a symbol is the text that stands there. -/
def StandsIn (form : Form) (cs : List Char) : Prop :=
  ∃ text, form.span.Covers cs text ∧ ∀ name, form.symbol? = some name → name.toList = text

lemma span_of_ofAtom {text : String} {span : Span} {form : Form} (h : ofAtom text span = .ok form) :
    form.span = span ∧ ∀ name, form.symbol? = some name → name = text := by
  unfold ofAtom at h
  simp only at h
  repeat' split at h
  all_goals cases h
  all_goals exact ⟨rfl, by simp [symbol?]⟩

end Form

/-- What the tokens of a text spell stands in the text, with all its parts. -/
theorem Spelling.standsIn {ts : List Token} {fs : List Form} {cs : List Char}
    (h : Spelling ts fs) (hts : ∀ t ∈ ts, t.StandsIn cs)
    (hordered : ts.Pairwise fun s t => s.span.stop ≤ t.span.start) :
    ∀ node ∈ Form.nodesAll fs, node.StandsIn cs := by
  induction h with
  | nil => simp [Form.nodesAll]
  | @atom t ts form forms kind reads tail ih =>
    have htail := ih (fun u hu => hts u (List.mem_cons_of_mem _ hu)) hordered.of_cons
    obtain ⟨hspan, hname⟩ := Form.span_of_ofAtom reads
    have hform : form.StandsIn cs :=
      ⟨_, hspan ▸ (hts t List.mem_cons_self).covers, fun name h => by rw [hname name h]⟩
    rw [Form.nodesAll, Form.nodes_of_isList_eq_false (Form.isList_of_ofAtom reads)]
    simpa using ⟨hform, htail⟩
  | @list o c inner ts items forms opening closing inside tail ihInside ihTail =>
    obtain ⟨hafter, hinner, htail, hbetween⟩ :
        (∀ t ∈ inner ++ c :: ts, o.span.stop ≤ t.span.start) ∧
        inner.Pairwise (fun s t => s.span.stop ≤ t.span.start) ∧
          (c :: ts).Pairwise (fun s t => s.span.stop ≤ t.span.start) ∧ _ := by
      simpa only [List.pairwise_cons, List.pairwise_append] using hordered
    have hc : c ∈ inner ++ c :: ts := by simp
    obtain ⟨text, htext⟩ := (hts o List.mem_cons_self).covers.cover
      (hts c (List.mem_cons_of_mem _ hc)).covers (hafter c hc)
    have hlist : (Form.list items (o.span.cover c.span)).StandsIn cs :=
      ⟨text, htext, fun name hname => by cases hname⟩
    have hitems := ihInside (fun t ht => hts t (by simp [ht])) hinner
    have hforms := ihTail (fun t ht => hts t (by simp [ht])) htail.of_cons
    simp only [Form.nodesAll, Form.nodes, List.cons_append, List.forall_mem_cons,
      List.forall_mem_append]
    exact ⟨hlist, hitems, hforms⟩

/-- All parts of the forms that are read from a source stand in the source. -/
theorem standsIn_of_read {source : String} {fs : List Form} (h : read source = .ok fs) :
    ∀ node ∈ Form.nodesAll fs, node.StandsIn source.toList := by
  obtain ⟨-, -, ts, htiling, hspelling⟩ := read_eq_ok_iff.mp h
  exact hspelling.standsIn (htiling.standsIn rfl paired_nil) htiling.ordered.1

/-- A source that cannot be read is too large, or ends in a string, or has a token at which the
reader fails. -/
theorem read_error_cases {source : String} {e : Error} (h : read source = .error e) :
    e = .scan (.tooLarge source.utf8ByteSize) ∨
      (∃ quote, OpensAt quote source.toList ∧
        e = .scan (.unterminated ⟨quote, source.utf8ByteSize⟩)) ∨
      ∃ t e', t.StandsIn source.toList ∧ e'.Concerns t ∧ e = .form e' := by
  unfold read at h
  split at h
  · next e' htokens =>
    cases h
    rcases tokenize_error_cases htokens with rfl | ⟨quote, hquote, rfl⟩
    · exact .inl rfl
    · exact .inr (.inl ⟨quote, hquote, rfl⟩)
  · cases h
  · next ts hne htokens =>
    cases hparse : parseAll ts with
    | ok forms =>
      rw [hparse] at h
      cases h
    | error e' =>
      rw [hparse] at h
      cases h
      obtain ⟨t, ht, hconcerns⟩ := parseAll_error (fun hts => hne (by rw [hts])) hparse
      exact .inr (.inr ⟨t, e',
        (tokenize_eq_ok_iff.mp htokens).2.standsIn rfl paired_nil t ht, hconcerns, rfl⟩)

end SmallLisp
