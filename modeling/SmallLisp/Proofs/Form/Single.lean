import SmallLisp.Proofs.Form.Faults
import SmallLisp.Proofs.Form.Spelling

/-!
# One form or all of them

Tokens can be asked for the only form that they make up (`parseOne`), or for all forms, however many
(`parseAll`).  The first way stops at the end of the first complete form and looks whether a token
is left; the other way goes on to the last token.

Up to the end of the first form both take the same steps.  So where the first form ends can be said
without either of them: behind the tokens that spell it (`Reader.firstForm_eq_ok_iff`).  If they
fail before that, then both fail there (`Reader.run_eq_error_of_firstForm`).  A token that is left
is the only thing about which they differ (`parseOne_agrees_with_parseAll`).
-/

namespace SmallLisp

namespace Reader

variable {r next : Reader} {t : Token} {ts rest : List Token} {form : Form} {e : FormError}

/-! ## Steps up to the first form -/

/-- A step completes a form at the top level, or leaves a list open. -/
lemma done_of_step (h : r.step t = .ok next) :
    (∃ form, next = ⟨form :: r.done, []⟩) ∨ next.done = r.done ∧ next.pending ≠ [] := by
  unfold step at h
  split at h
  · cases h
    exact .inr ⟨rfl, List.cons_ne_nil _ _⟩
  · cases h
  · cases h
    exact .inl ⟨_, rfl⟩
  · cases h
    exact .inr ⟨rfl, List.cons_ne_nil _ _⟩
  · cases hform : Form.ofAtom t.text t.span with
    | error e =>
      rw [hform] at h
      cases h
    | ok form =>
      rw [hform] at h
      cases h
      exact .inr ⟨rfl, List.cons_ne_nil _ _⟩

/-- When the first form is complete, no list is open any more; before that, one always is. -/
lemma step_first (hr : r.done = []) (h : r.step t = .ok next) :
    (∃ form, next = ⟨[form], []⟩) ∨ next.done = [] ∧ next.pending ≠ [] := by
  have hcases := done_of_step h
  rwa [hr] at hcases

/-- A complete form stays complete. -/
lemma done_suffix_of_step (h : r.step t = .ok next) : r.done <:+ next.done := by
  rcases done_of_step h with ⟨form, rfl⟩ | ⟨hdone, -⟩
  · exact List.suffix_cons form r.done
  · rw [hdone]

lemma done_suffix_of_foldlM (h : ts.foldlM step r = .ok next) : r.done <:+ next.done := by
  induction ts generalizing r with
  | nil =>
    cases h
    exact List.suffix_rfl
  | cons t ts ih =>
    rw [List.foldlM_cons] at h
    cases hstep : r.step t with
    | error e =>
      rw [hstep] at h
      cases h
    | ok r' =>
      rw [hstep] at h
      exact (done_suffix_of_step hstep).trans (ih h)

lemma firstForm_of_error (h : r.step t = .error e) : r.firstForm (t :: ts) = .error e := by
  rw [firstForm, h]
  rfl

lemma firstForm_of_complete (h : r.step t = .ok ⟨[form], []⟩) :
    r.firstForm (t :: ts) = .ok (form, ts) := by
  rw [firstForm, h]
  rfl

lemma firstForm_of_open (h : r.step t = .ok next) (hnext : next.done = []) :
    r.firstForm (t :: ts) = next.firstForm ts := by
  simp only [firstForm, h, bind, Except.bind, hnext]

/-! ## Where the first form ends -/

/-- As long as no form is complete, the first form is still to come. -/
lemma firstForm_append (h : ts.foldlM step r = .ok next) (hnext : next.done = []) :
    r.firstForm (ts ++ rest) = next.firstForm rest := by
  induction ts generalizing r with
  | nil =>
    cases h
    rfl
  | cons t ts ih =>
    rw [List.foldlM_cons] at h
    cases hstep : r.step t with
    | error e =>
      rw [hstep] at h
      cases h
    | ok r' =>
      rw [hstep] at h
      have hdone : r'.done = [] := List.suffix_nil.mp (hnext ▸ done_suffix_of_foldlM h)
      rw [List.cons_append, firstForm_of_open hstep hdone, ih h]

/-- The tokens up to the end of the first form are a run of the reader that leaves this form. -/
lemma exists_of_firstForm (hr : r.done = []) (h : r.firstForm ts = .ok (form, rest)) :
    ∃ first, ts = first ++ rest ∧ first.foldlM step r = .ok ⟨[form], []⟩ := by
  induction ts generalizing r with
  | nil =>
    rw [firstForm] at h
    split at h <;> cases h
  | cons t ts ih =>
    cases hstep : r.step t with
    | error e =>
      rw [firstForm_of_error hstep] at h
      cases h
    | ok next =>
      rcases step_first hr hstep with ⟨f, rfl⟩ | ⟨hnext, -⟩
      · rw [firstForm_of_complete hstep] at h
        cases h
        refine ⟨[t], rfl, ?_⟩
        rw [List.foldlM_cons, hstep]
        rfl
      · rw [firstForm_of_open hstep hnext] at h
        obtain ⟨first, rfl, hrun⟩ := ih hnext h
        refine ⟨t :: first, rfl, ?_⟩
        rw [List.foldlM_cons, hstep]
        exact hrun

/-- An error that comes before the first form is complete ends the run over all tokens too. -/
theorem run_eq_error_of_firstForm (hr : r.done = []) (hsome : r.pending ≠ [] ∨ ts ≠ [])
    (h : r.firstForm ts = .error e) : r.run ts = .error e := by
  induction ts generalizing r with
  | nil =>
    rw [firstForm] at h
    cases hpending : r.pending with
    | nil => exact absurd hpending (hsome.resolve_right (by simp))
    | cons list outer =>
      rw [hpending] at h
      cases h
      rw [run_nil, finish, hpending]
  | cons t ts ih =>
    rw [run_cons]
    cases hstep : r.step t with
    | error e' =>
      rw [firstForm_of_error hstep] at h
      cases h
      rfl
    | ok next =>
      rcases step_first hr hstep with ⟨f, rfl⟩ | ⟨hnext, hpending⟩
      · rw [firstForm_of_complete hstep] at h
        cases h
      · rw [firstForm_of_open hstep hnext] at h
        exact ih hnext (.inl hpending) h

/-- The first form ends behind the tokens that spell it. -/
theorem firstForm_eq_ok_iff : firstForm {} ts = .ok (form, rest) ↔
    ∃ first, ts = first ++ rest ∧ form.isList ∧ Spelling first [form] := by
  constructor
  · intro h
    obtain ⟨first, rfl, hrun⟩ := exists_of_firstForm rfl h
    have hfirst : first ≠ [] := by
      rintro rfl
      cases hrun
    have hparse : parseAll first = .ok [form] := by
      rw [parseAll, if_neg (by simpa using hfirst), hrun]
      rfl
    obtain ⟨-, lists, hspelling⟩ := parseAll_eq_ok_iff.mp hparse
    exact ⟨first, rfl, lists form List.mem_cons_self, hspelling⟩
  · rintro ⟨first, rfl, hlist, hspelling⟩
    cases hspelling with
    | atom kind reads tail =>
      rw [Form.isList_of_ofAtom reads] at hlist
      cases hlist
    | @list o c inner _ items _ opening closing inside tail =>
      cases tail
      have hopen : step {} o = .ok ⟨[], [⟨o.span, []⟩]⟩ := step_opening {} opening
      have hclose : step ⟨[], [⟨o.span, items.reverse ++ []⟩]⟩ c =
          .ok ⟨[.list items (o.span.cover c.span)], []⟩ := by
        simp [step, closing, close]
      have hinside := inside.foldlM_step [] [] o.span []
      rw [List.cons_append, List.append_assoc, firstForm_of_open hopen rfl,
        firstForm_append hinside rfl]
      exact firstForm_of_complete hclose

end Reader

/-! ## Exactly one form -/

/-- No token is wrong because it follows a form. -/
lemma Token.fault?_ne_trailing (opened : List Span) (t : Token) (text : String) (span : Span) :
    t.fault? opened ≠ some (.trailing text span) := by
  unfold fault?
  split
  · simp
  · simp
  · simp
  · split <;> simp

lemma firstFault?_ne_trailing (opened : List Span) (ts : List Token) (text : String) (span : Span) :
    firstFault? opened ts ≠ some (.trailing text span) := by
  induction ts generalizing opened with
  | nil => cases opened <;> simp [firstFault?]
  | cons t ts ih =>
    intro h
    rw [firstFault?, Option.or_eq_some_iff] at h
    rcases h with h | ⟨-, h⟩
    · exact t.fault?_ne_trailing opened text span h
    · exact ih _ h

variable {t : Token} {ts rest : List Token} {form : Form} {e : FormError}

lemma parseOne_of_complete (h : Reader.firstForm {} ts = .ok (form, [])) :
    parseOne ts = .ok form := by
  rw [parseOne, h]
  rfl

lemma parseOne_of_trailing (h : Reader.firstForm {} ts = .ok (form, t :: rest)) :
    parseOne ts = .error (.trailing t.text t.span) := by
  rw [parseOne, h]
  rfl

/-- If the tokens do not begin with a form, then both ways to read them fail alike. -/
lemma parse_of_firstForm_error (h : Reader.firstForm {} ts = .error e) :
    parseOne ts = .error e ∧ parseAll ts = .error e ∧
      ∀ text span, e ≠ .trailing text span := by
  have hone : parseOne ts = .error e := by
    rw [parseOne, h]
    rfl
  by_cases hts : ts = []
  · subst hts
    cases h
    exact ⟨hone, rfl, by simp⟩
  · have hrun : Reader.run {} ts = .error e := Reader.run_eq_error_of_firstForm rfl (.inr hts) h
    have hall : parseAll ts = .error e := by
      rw [parseAll, if_neg (by simpa using hts)]
      exact hrun
    refine ⟨hone, hall, ?_⟩
    rintro text span rfl
    exact firstFault?_ne_trailing _ ts text span ((Reader.run_eq_error_iff _ _ _).mp hrun)

/-- The tokens are read as exactly one form if they spell a list and nothing else. -/
theorem parseOne_eq_ok_iff : parseOne ts = .ok form ↔ form.isList ∧ Spelling ts [form] := by
  constructor
  · intro h
    cases hfirst : Reader.firstForm {} ts with
    | error e =>
      rw [(parse_of_firstForm_error hfirst).1] at h
      cases h
    | ok p =>
      obtain ⟨f, rest⟩ := p
      cases rest with
      | cons t rest =>
        rw [parseOne_of_trailing hfirst] at h
        cases h
      | nil =>
        rw [parseOne_of_complete hfirst] at h
        cases h
        obtain ⟨first, hts, hspelling⟩ := Reader.firstForm_eq_ok_iff.mp hfirst
        rwa [hts, List.append_nil]
  · rintro ⟨hlist, hspelling⟩
    exact parseOne_of_complete
      (Reader.firstForm_eq_ok_iff.mpr ⟨ts, (List.append_nil ts).symm, hlist, hspelling⟩)

/-- A token is left if it follows tokens that spell a list. -/
theorem parseOne_eq_trailing_iff {text : String} {span : Span} :
    parseOne ts = .error (.trailing text span) ↔
      ∃ form first t rest, ts = first ++ t :: rest ∧ form.isList ∧ Spelling first [form] ∧
        t.text = text ∧ t.span = span := by
  constructor
  · intro h
    cases hfirst : Reader.firstForm {} ts with
    | error e =>
      obtain ⟨hone, -, hne⟩ := parse_of_firstForm_error hfirst
      rw [hone] at h
      exact absurd (Except.error.inj h) (hne text span)
    | ok p =>
      obtain ⟨f, rest⟩ := p
      cases rest with
      | nil =>
        rw [parseOne_of_complete hfirst] at h
        cases h
      | cons t rest =>
        rw [parseOne_of_trailing hfirst] at h
        cases h
        obtain ⟨first, hts, hlist, hspelling⟩ := Reader.firstForm_eq_ok_iff.mp hfirst
        exact ⟨f, first, t, rest, hts, hlist, hspelling, rfl, rfl⟩
  · rintro ⟨form, first, t, rest, hts, hlist, hspelling, rfl, rfl⟩
    exact parseOne_of_trailing (Reader.firstForm_eq_ok_iff.mpr ⟨first, hts, hlist, hspelling⟩)

/-- Reading the only form of the tokens gives a form if and only if reading all forms gives this
form alone.  It complains about a token that is left if and only if the tokens before that one spell
one complete list, whatever comes behind it.  Otherwise both fail, with the same error. -/
theorem parseOne_agrees_with_parseAll (ts : List Token) :
    (∀ form, parseOne ts = .ok form ↔ parseAll ts = .ok [form]) ∧
    (∀ text span, parseOne ts = .error (.trailing text span) ↔
      ∃ form first t rest, ts = first ++ t :: rest ∧ form.isList ∧ Spelling first [form] ∧
        t.text = text ∧ t.span = span) ∧
    ((∃ form, parseOne ts = .ok form) ∨ (∃ text span, parseOne ts = .error (.trailing text span)) ∨
      ∃ e, parseOne ts = .error e ∧ parseAll ts = .error e) := by
  refine ⟨?_, ?_, ?_⟩
  · intro form
    rw [parseOne_eq_ok_iff, parseAll_eq_ok_iff]
    simp
  · intro text span
    exact parseOne_eq_trailing_iff
  · cases hfirst : Reader.firstForm {} ts with
    | error e =>
      obtain ⟨hone, hall, -⟩ := parse_of_firstForm_error hfirst
      exact .inr (.inr ⟨e, hone, hall⟩)
    | ok p =>
      obtain ⟨form, rest⟩ := p
      cases rest with
      | nil => exact .inl ⟨form, parseOne_of_complete hfirst⟩
      | cons t rest => exact .inr (.inl ⟨t.text, t.span, parseOne_of_trailing hfirst⟩)

/-- A second list follows the first one and is not closed. -/
example : parseOne [.openingAt 0, .closingAt 1, .openingAt 2] = .error (.trailing "(" ⟨2, 3⟩) ∧
    parseAll [.openingAt 0, .closingAt 1, .openingAt 2] = .error (.unclosed ⟨2, 3⟩) :=
  ⟨rfl, rfl⟩

end SmallLisp
