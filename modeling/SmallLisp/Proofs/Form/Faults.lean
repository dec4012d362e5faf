import SmallLisp.Proofs.Form.Descent

/-!
# The first fault

Whether tokens make up forms, and if not, why, can be said without building a form.  A scan over the
tokens keeps the places of the parentheses that are open, innermost first, and stops at the first
token that cannot stand there (`Token.fault?`); if it comes to the end with a parenthesis open, the
innermost one is to blame (`firstFault?`).

The reader and this scan go side by side: the lists that are open in the reader stand at the places
that the scan keeps (`Reader.step_cases`), and so the error of a run is the first fault
(`Reader.run_eq_error_iff`).  By `parseAll_eq_readLists` it is also the error that reading list by
list brings up from inside of any number of lists.
-/

namespace SmallLisp

/-! ## The scan -/

namespace Token

/-- The text is an integer literal whose value does not fit 64 bits. -/
def OutOfRange (t : Token) : Prop :=
  Literal.isInteger t.text.toList ∧ ¬ Integer.Fits (Literal.integerValue t.text.toList)

instance (t : Token) : Decidable t.OutOfRange := inferInstanceAs (Decidable (_ ∧ _))

/-- What is wrong with a token where the parentheses at `opened` are open: at the top level only an
opening parenthesis can stand, and inside of a list no integer that is out of range. -/
def fault? (opened : List Span) (t : Token) : Option FormError :=
  match t.kind, opened with
  | .opening, _ => none
  | _, [] => some (.unexpected t.text t.span)
  | .closing, _ :: _ => none
  | .atom, _ :: _ => if t.OutOfRange then some (.outOfRange t.text t.span) else none

/-- The places of the open parentheses behind a token. -/
def openedAfter (opened : List Span) (t : Token) : List Span :=
  match t.kind with
  | .opening => t.span :: opened
  | .closing => opened.tail
  | .atom => opened

end Token

/-- The first fault in the tokens, where the parentheses at `opened` are open before them. -/
def firstFault? (opened : List Span) : List Token → Option FormError
  | [] => opened.head?.map .unclosed
  | t :: ts => (t.fault? opened).or (firstFault? (t.openedAfter opened) ts)

/-! ## The reader beside the scan -/

/-- An atom stands for nothing if it is an integer literal out of range, and only then. -/
lemma Form.ofAtom_eq_error_iff {t : Token} {e : FormError} :
    ofAtom t.text t.span = .error e ↔ t.OutOfRange ∧ e = .outOfRange t.text t.span := by
  unfold ofAtom Token.OutOfRange Integer.ofInt?
  by_cases hinteger : Literal.isInteger t.text.toList
  · by_cases hfits : Integer.Fits (Literal.integerValue t.text.toList)
    · simp [hinteger, hfits]
    · simp [hinteger, hfits, eq_comm]
  · simp only [hinteger, Bool.false_eq_true, if_false, false_and, iff_false]
    repeat' split
    all_goals simp

namespace Reader

/-- Where the open lists stand, innermost first. -/
def opened (r : Reader) : List Span := r.pending.map OpenList.span

lemma opened_add (form : Form) (r : Reader) : (add form r).opened = r.opened := by
  unfold add opened
  split <;> simp [*]

/-- The reader takes a token that is no fault, and its open lists stand where the scan says. -/
theorem step_cases (r : Reader) (t : Token) :
    (∃ e, r.step t = .error e ∧ t.fault? r.opened = some e) ∨
      ∃ r', r.step t = .ok r' ∧ t.fault? r.opened = none ∧
        r'.opened = t.openedAfter r.opened := by
  obtain ⟨done, pending⟩ := r
  by_cases hopening : t.kind = .opening
  · exact .inr ⟨_, step_opening _ hopening, by simp only [Token.fault?, hopening],
      by simp only [Token.openedAfter, hopening, opened, List.map_cons]⟩
  rcases pending with _ | ⟨⟨span, items⟩, outer⟩
  · refine .inl ⟨_, step_stray hopening, ?_⟩
    simp only [Token.fault?, opened, List.map_nil]
  cases hkind : t.kind with
  | opening => exact absurd hkind hopening
  | closing =>
    have hfault : t.fault? (span :: outer.map OpenList.span) = none := by
      simp only [Token.fault?, hkind]
    refine .inr ⟨_, step_closing hkind, hfault, ?_⟩
    rw [opened_add]
    simp only [Token.openedAfter, hkind, opened, List.map_cons, List.tail_cons]
  | atom =>
    rw [step_atom hkind]
    simp only [Token.fault?, Token.openedAfter, hkind, opened, List.map_cons]
    cases hform : Form.ofAtom t.text t.span with
    | error e =>
      obtain ⟨hrange, rfl⟩ := Form.ofAtom_eq_error_iff.mp hform
      exact .inl ⟨_, rfl, if_pos hrange⟩
    | ok form =>
      refine .inr ⟨_, rfl, if_neg fun hrange => ?_, rfl⟩
      rw [Form.ofAtom_eq_error_iff.mpr ⟨hrange, rfl⟩] at hform
      cases hform

/-- A run of the reader ends in the first fault, if there is one. -/
theorem run_eq_error_iff (r : Reader) (ts : List Token) (e : FormError) :
    r.run ts = .error e ↔ firstFault? r.opened ts = some e := by
  induction ts generalizing r with
  | nil =>
    obtain ⟨done, pending⟩ := r
    cases pending with
    | nil => simp [finish, firstFault?, opened]
    | cons list outer => simp [finish, firstFault?, opened]
  | cons t ts ih =>
    rw [run_cons, firstFault?]
    rcases step_cases r t with ⟨e', hstep, hfault⟩ | ⟨r', hstep, hfault, hopened⟩
    · rw [hstep, hfault, Option.some_or, Option.some.injEq]
      show Except.error e' = .error e ↔ _
      rw [Except.error.injEq]
    · rw [hstep, hfault, Option.none_or, ← hopened]
      exact ih r'

end Reader

/-- Tokens parse unless there is a fault in them, and the error is the first one.  No tokens at all
are refused as such.  Otherwise an atom or a closing parenthesis outside of all lists is a fault,
and inside of a list an integer literal that is out of range; at the end of the tokens it is one if
a list is still open, and then the innermost such list is reported.  Reading every list by a
recursion of its own gives the same forms and the same errors. -/
theorem parseAll_first_fault (ts : List Token) :
    (∀ e, parseAll ts = .error e ↔ if ts = [] then e = .noForm else firstFault? [] ts = some e) ∧
    ((∃ forms, parseAll ts = .ok forms) ↔ ts ≠ [] ∧ firstFault? [] ts = none) ∧
    parseAll ts = if ts = [] then .error .noForm else readLists ts := by
  by_cases hts : ts = []
  · subst hts
    simp [parseAll, eq_comm]
  · have hparse : parseAll ts = Reader.run {} ts := by
      simp only [parseAll, List.isEmpty_iff, hts, if_false]
      rfl
    have herror (e : FormError) : parseAll ts = .error e ↔ firstFault? [] ts = some e := by
      rw [hparse, Reader.run_eq_error_iff]
      rfl
    refine ⟨fun e => by rw [herror, if_neg hts], ?_, ?_⟩
    · rw [Option.eq_none_iff_forall_ne_some]
      simp only [ne_eq, ← herror, hts, not_false_eq_true, true_and]
      cases parseAll ts <;> simp
    · simp [parseAll_eq_readLists, hts]

/-- After a complete list, two lists are open at the end; the inner one is reported. -/
example : firstFault? [] [.openingAt 0, .closingAt 1, .openingAt 2, .openingAt 3] =
    some (.unclosed ⟨3, 4⟩) := by
  decide

end SmallLisp
