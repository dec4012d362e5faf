import SmallLisp.Proofs.Evaluation.Lockstep
import SmallLisp.Proofs.Form.Places

/-!
# Where errors are located

The place of an error is a part of the source, and what stands there is what the error is about
(`Run.error_located`).

For the errors of reading this is a matter of tokens.  An error of evaluation is located at a part
of some form that is being evaluated, and such a form is always a part of the program: the forms of
the program are, and so are the bodies of all closures that can be called.  That is what an
evaluator that is in lockstep with itself shows (`Lockstep.refl`).
-/

namespace SmallLisp

/-- What stands at the place `span` of the source, with the text `text`, where the error is
located. -/
def Error.Shows (source : String) (span : Span) (text : String) : Error → Prop
  -- a string that is not ended runs to the end of the source
  | scan (.unterminated _) => span.stop = source.utf8ByteSize ∧
      ∃ inside, text.toList = '"' :: inside ∧ '"' ∉ inside
  | form (.unexpected token _) | form (.outOfRange token _) => text = token
  | form (.unclosed _) => text = "("
  | eval (.unbound name _) => text = name
  | eval (.notCallable ..) | eval (.malformed ..) =>
    ∃ forms, read source = .ok forms ∧ ∃ node ∈ Form.nodesAll forms, node.span = span
  -- these are tied to no place of a source
  | scan (.tooLarge _) | form .noForm | form (.trailing ..) | eval (.arityMismatch ..)
  | eval (.primitive ..) | eval (.depthExceeded _) => False

/-- The error is located at a part of the source that shows what it is about. -/
structure Error.Located (source : String) (span : Span) (e : Error) : Prop where
  nonempty : span.start < span.stop
  inside : span.stop ≤ source.utf8ByteSize
  shows : ∃ text, span.slice? source = some text ∧ e.Shows source span text

namespace Error

variable {source : String} {span : Span} {e : Error}

/-- A part of the source that shows what the error is about is where it is located. -/
lemma located_of_covers {cs : List Char} (h : span.Covers source.toList cs)
    (hshows : e.Shows source span (String.ofList cs)) : e.Located source span where
  nonempty := h.start_lt_stop
  inside := by simpa using h.stop_le
  shows := ⟨_, h.slice?_eq, hshows⟩

/-- A string that is not ended. -/
lemma located_of_opensAt {quote : Nat} (h : OpensAt quote source.toList) :
    (scan (.unterminated ⟨quote, source.utf8ByteSize⟩)).Located source
      ⟨quote, source.utf8ByteSize⟩ := by
  obtain ⟨before, body, hsource, hbody, rfl⟩ := h
  have hcovers :
      Span.Covers ⟨byteLength before, source.utf8ByteSize⟩ source.toList ('"' :: body) := by
    refine ⟨before, [], by simpa using hsource, by simp, ?_⟩
    rw [← byteLength_toList, hsource, byteLength_append]
  exact located_of_covers hcovers ⟨rfl, body, by simp, hbody⟩

/-- A token at which the reader fails. -/
lemma located_of_concerns {t : Token} {e : FormError} (ht : t.StandsIn source.toList)
    (h : e.Concerns t) : e.span = t.span ∧ (form e).Located source t.span := by
  have hcovers := ht.covers
  cases h with
  | unexpected | outOfRange => exact ⟨rfl, located_of_covers hcovers (by simp [Shows])⟩
  | unclosed _ opening =>
    refine ⟨rfl, located_of_covers hcovers ?_⟩
    obtain ⟨before, text, after, -, htoken, hlexeme, -⟩ := ht
    rw [opening] at hlexeme
    rw [htoken, lexeme_opening_iff.mp hlexeme]
    simp only [Shows, Token.ofChars, String.ofList_toList]

/-- A part of the program at which its evaluation fails. -/
lemma located_of_arisesIn {forms : List Form} {e : EvalError} (hread : read source = .ok forms)
    (h : e.ArisesIn forms) (hspan : e.span? = some span) : (eval e).Located source span := by
  have hnode {node : Form} (hnode : node ∈ Form.nodesAll forms) := standsIn_of_read hread node hnode
  cases e with
  | unbound name place =>
    cases hspan
    obtain ⟨text, hcovers, hname⟩ := hnode h
    exact located_of_covers hcovers (by simp [Shows, ← hname name rfl])
  | notCallable | malformed =>
    cases hspan
    obtain ⟨node, hmem, rfl⟩ := h
    obtain ⟨text, hcovers, -⟩ := hnode hmem
    exact located_of_covers hcovers ⟨forms, hread, node, hmem, rfl⟩
  | arityMismatch | primitive | depthExceeded => cases hspan

end Error

namespace Run

/-- Whatever ends the evaluation of a program with an error is a part of the program. -/
lemma arisesIn_of_ofForms [Machine] {fuel : Nat} {config : Config} {forms : List Form} {r : Run}
    {e : Error} (h : ofForms fuel config forms = some r) (he : r.result = .error e) :
    ∃ e', e = .eval e' ∧ e'.ArisesIn forms := by
  have halike := (Lockstep.refl forms config).program_alike (fun _ _ _ _ _ hnext => hnext) rfl fuel
  rcases ofOutcome_eq_some h with ⟨value, u, ho, rfl⟩ | ⟨e', u, ho, rfl⟩
  · cases he
  · cases he
    rw [ho] at halike
    cases halike with
    | error states arises => exact ⟨e', rfl, arises⟩

lemma located_of_ofSource [Machine] {fuel : Nat} {config : Config} {source : String} {r : Run}
    {e : Error} {span : Span} (h : ofSource fuel config source = some r) (he : r.result = .error e)
    (hsize : ∀ bytes, e ≠ .scan (.tooLarge bytes)) (hspan : e.span? = some span) :
    e.Located source span := by
  rw [ofSource_eq] at h
  cases hread : read source with
  | error e' =>
    rw [hread] at h
    cases h
    cases he
    rcases read_error_cases hread with rfl | ⟨quote, hquote, rfl⟩ | ⟨t, e', ht, hconcerns, rfl⟩
    · exact absurd rfl (hsize _)
    · cases hspan
      exact Error.located_of_opensAt hquote
    · cases hspan
      obtain ⟨hspan, hlocated⟩ := Error.located_of_concerns ht hconcerns
      rwa [hspan]
  | ok forms =>
    rw [hread] at h
    obtain ⟨e', rfl, harises⟩ := arisesIn_of_ofForms h he
    exact Error.located_of_arisesIn hread harises hspan

/-- An error of a single source is located at a part of the source that shows what the error is
about, if it has a place at all and the source is not too large.  Some errors do not come up: that
there is no form, that something follows the only form, and that a value is called at no place. -/
theorem error_located [Machine] (fuel : Nat) (config : Config) (source : String) (r : Run)
    (e : Error) (h : ofSource fuel config source = some r) (he : r.result = .error e) :
    (∀ span, (∀ bytes, e ≠ .scan (.tooLarge bytes)) → e.span? = some span →
      e.Located source span) ∧
    e ≠ .form .noForm ∧ (∀ text span, e ≠ .form (.trailing text span)) ∧
      ∀ kind, e ≠ .eval (.notCallable kind .nowhere) := by
  have hlocated {span : Span} (hsize : ∀ bytes, e ≠ .scan (.tooLarge bytes))
      (hspan : e.span? = some span) : e.Located source span := located_of_ofSource h he hsize hspan
  refine ⟨fun span => hlocated, ?_, ?_, ?_⟩
  · rintro rfl
    exact absurd (hlocated nofun rfl).nonempty (Nat.lt_irrefl _)
  · rintro text span rfl
    obtain ⟨_, -, hshows⟩ := (hlocated nofun rfl).shows
    exact hshows
  · rintro kind rfl
    exact absurd (hlocated nofun rfl).nonempty (Nat.lt_irrefl _)

section

open scoped Machine

/-- The head of the call in the body of a closure is no procedure. -/
theorem error_located_body :
    let source := "(define f (lambda (x) (x)))\n(f 1)"
    ∃ r e, ofSource 9 {} source = some r ∧ r.result = .error e ∧
      e = .eval (.notCallable .int ⟨23, 24⟩) ∧ e.Located source ⟨23, 24⟩ := by
  intro source
  have herror : (ofSource 9 {} source).map error? =
      some (some (.eval (.notCallable .int ⟨23, 24⟩))) := by
    decide +kernel
  obtain ⟨r, hr, herror⟩ := Option.map_eq_some_iff.mp herror
  have he := error?_eq_some_iff.mp herror
  exact ⟨r, _, hr, he, rfl, (error_located 9 {} source r _ hr he).1 _ nofun rfl⟩

end

end Run

end SmallLisp
