import Mathlib
import SmallLisp.Form.Read
import SmallLisp.Proofs.Form.Leaves

/-!
# Tokens spell forms

Writing forms out as tokens is a relation, `Spelling`, because the texts of parentheses are not
part of a form: a list is spelled by any opening parenthesis, the spellings of its items and any
closing parenthesis, and it stands from the one to the other.

`parseAll_inverts_spelling` says that reading is the inverse of that.  A run of the reader keeps
what it has read as a spelling of the complete forms followed by the lists that are still open
(`Reader.HasRead`); the other way round, running the reader along a spelling adds its forms to the
innermost open list (`Spelling.foldlM_step`).
-/

namespace SmallLisp

/-! ## Spellings -/

/-- The tokens, one after the other, write out the forms. -/
inductive Spelling : List Token → List Form → Prop
  | nil : Spelling [] []
  | atom {t : Token} {ts : List Token} {form : Form} {forms : List Form} (kind : t.kind = .atom)
      (reads : Form.ofAtom t.text t.span = .ok form) (tail : Spelling ts forms) :
      Spelling (t :: ts) (form :: forms)
  | list {o c : Token} {inner ts : List Token} {items forms : List Form}
      (opening : o.kind = .opening) (closing : c.kind = .closing) (inside : Spelling inner items)
      (tail : Spelling ts forms) :
      Spelling (o :: (inner ++ c :: ts)) (.list items (o.span.cover c.span) :: forms)

lemma Spelling.append {ts us : List Token} {fs gs : List Form} (h : Spelling ts fs)
    (h' : Spelling us gs) : Spelling (ts ++ us) (fs ++ gs) := by
  induction h with
  | nil => exact h'
  | atom kind reads tail ih => exact .atom kind reads ih
  | list opening closing inside tail _ ih =>
    simpa using Spelling.list opening closing inside ih

/-- What the atoms among the tokens stand for. -/
def readAtoms (ts : List Token) : List (Except FormError Form) :=
  (ts.filter (·.kind = .atom)).map fun t => Form.ofAtom t.text t.span

namespace Spelling

variable {ts : List Token} {fs : List Form}

/-- A spelling has the classes of tokens that the forms ask for. -/
theorem map_kind (h : Spelling ts fs) : ts.map Token.kind = Form.kindsAll fs := by
  induction h with
  | nil => rfl
  | atom kind reads tail ih =>
    have hleaf := Form.kinds_of_isList_eq_false (Form.isList_of_ofAtom reads)
    rw [List.map_cons, Form.kindsAll, ih, kind, hleaf, List.singleton_append]
  | list opening closing inside tail ihInside ihTail =>
    simp [Form.kindsAll, Form.kinds, opening, closing, ihInside, ihTail]

/-- The leaves are what the atoms stand for, in order. -/
theorem readAtoms_eq (h : Spelling ts fs) : readAtoms ts = (Form.leavesAll fs).map .ok := by
  induction h with
  | nil => rfl
  | atom kind reads tail ih =>
    have hleaf := Form.leaves_of_isList_eq_false (Form.isList_of_ofAtom reads)
    simp only [readAtoms] at ih ⊢
    simp [kind, reads, Form.leavesAll, hleaf, ih]
  | list opening closing inside tail ihInside ihTail =>
    simp only [readAtoms] at ihInside ihTail ⊢
    simp [opening, closing, Form.leavesAll, Form.leaves, ihInside, ihTail]

end Spelling

/-! ## Runs of the reader -/

/-- The tokens open the lists, outermost list first, and spell the items read so far. -/
inductive SpellsOpen : List Token → List OpenList → Prop
  | nil : SpellsOpen [] []
  | cons {o : Token} {before inside : List Token} {items : List Form} {rest : List OpenList}
      (outer : SpellsOpen before rest) (opening : o.kind = .opening)
      (spelled : Spelling inside items.reverse) :
      SpellsOpen (before ++ o :: inside) (⟨o.span, items⟩ :: rest)

/-- The state that the reader is in after these tokens. -/
inductive Reader.HasRead : List Token → Reader → Prop
  | mk {complete unfinished : List Token} {done : List Form} {pending : List OpenList}
      (spelled : Spelling complete done.reverse) (lists : ∀ form ∈ done, form.isList)
      (opened : SpellsOpen unfinished pending) : HasRead (complete ++ unfinished) ⟨done, pending⟩

namespace Reader

lemma hasRead_nil : HasRead [] {} := @HasRead.mk [] [] [] [] .nil (by simp) .nil

/-- After one more token the reader has read that token too. -/
theorem HasRead.step {ts : List Token} {r r' : Reader} {t : Token} (h : HasRead ts r)
    (hstep : r.step t = .ok r') : HasRead (ts ++ [t]) r' := by
  cases h with
  | @mk complete _ done pending spelled lists opened =>
    rw [List.append_assoc]
    unfold Reader.step at hstep
    split at hstep
    · next hkind =>
      cases hstep
      exact .mk spelled lists (.cons opened hkind .nil)
    · cases hstep
    · next list hkind hpending =>
      cases hstep
      subst hpending
      cases opened with
      | @cons o _ inside items _ outer opening inner =>
        cases outer
        have hlist := Spelling.list opening hkind inner .nil
        have hread := @HasRead.mk _ [] (_ :: done) [] (by simpa using spelled.append hlist)
          (by simpa [Form.isList] using lists) .nil
        simpa [close] using hread
    · next list last rest hkind hpending =>
      cases hstep
      subst hpending
      cases opened with
      | @cons o _ inside items _ outer opening inner =>
        cases outer with
        | @cons p before inside' items' _ outer' opening' inner' =>
          have hlist := Spelling.list opening hkind inner .nil
          have hopen := @SpellsOpen.cons _ _ _ (_ :: items') _ outer' opening'
            (by simpa using inner'.append hlist)
          have hread := HasRead.mk spelled lists hopen
          simpa [close] using hread
    · next list rest hkind hpending =>
      subst hpending
      cases hform : Form.ofAtom t.text t.span with
      | error e => rw [hform] at hstep; cases hstep
      | ok form =>
        rw [hform] at hstep
        cases hstep
        cases opened with
        | @cons o before inside items _ outer opening inner =>
          have hatom := Spelling.atom hkind hform .nil
          have hopen := @SpellsOpen.cons _ _ _ (form :: items) _ outer opening
            (by simpa using inner.append hatom)
          have hread := HasRead.mk spelled lists hopen
          simpa using hread

/-- After some more tokens the reader has read those tokens too. -/
theorem HasRead.foldlM_step {ts us : List Token} {r r' : Reader} (h : HasRead ts r)
    (hrun : us.foldlM Reader.step r = .ok r') : HasRead (ts ++ us) r' := by
  induction us generalizing ts r with
  | nil =>
    cases hrun
    simpa using h
  | cons u us ih =>
    rw [List.foldlM_cons] at hrun
    cases hstep : r.step u with
    | error e => rw [hstep] at hrun; cases hrun
    | ok next =>
      rw [hstep] at hrun
      simpa using ih (h.step hstep) hrun

end Reader

/-! ## Runs along a spelling -/

/-- A run over a list goes from its opening parenthesis over its items to its closing one. -/
lemma Reader.foldlM_list {r opened filled closed : Reader} {o c : Token} {inner : List Token}
    (hopen : r.step o = .ok opened) (hinner : inner.foldlM step opened = .ok filled)
    (hclose : filled.step c = .ok closed) (ts : List Token) :
    (o :: (inner ++ c :: ts)).foldlM step r = ts.foldlM step closed := by
  rw [List.foldlM_cons, hopen]
  show (inner ++ c :: ts).foldlM step opened = _
  rw [List.foldlM_append, hinner]
  show (c :: ts).foldlM step filled = _
  rw [List.foldlM_cons, hclose]
  rfl

namespace Spelling

open Reader

variable {ts : List Token} {fs : List Form}

/-- Inside a list, the reader adds the spelled forms to that list. -/
theorem foldlM_step (h : Spelling ts fs) (done items : List Form) (span : Span)
    (rest : List OpenList) :
    ts.foldlM Reader.step ⟨done, ⟨span, items⟩ :: rest⟩ =
      .ok ⟨done, ⟨span, fs.reverse ++ items⟩ :: rest⟩ := by
  induction h generalizing span items rest with
  | nil => rfl
  | @atom t ts form forms kind reads tail ih =>
    have hstep : Reader.step ⟨done, ⟨span, items⟩ :: rest⟩ t =
        .ok ⟨done, ⟨span, form :: items⟩ :: rest⟩ := by
      simp only [Reader.step, kind, reads]
      rfl
    rw [List.foldlM_cons, hstep]
    show ts.foldlM Reader.step _ = _
    simpa using ih (form :: items) span rest
  | @list o c inner ts inside forms opening closing _ tail ihInside ihTail =>
    have hopen : Reader.step ⟨done, ⟨span, items⟩ :: rest⟩ o =
        .ok ⟨done, ⟨o.span, []⟩ :: ⟨span, items⟩ :: rest⟩ := by
      simp only [Reader.step, opening]
    have hclose : Reader.step ⟨done, ⟨o.span, inside.reverse ++ []⟩ :: ⟨span, items⟩ :: rest⟩ c =
        .ok ⟨done, ⟨span, .list inside (o.span.cover c.span) :: items⟩ :: rest⟩ := by
      simp [Reader.step, closing, close]
    rw [foldlM_list hopen (ihInside [] o.span (⟨span, items⟩ :: rest)) hclose]
    simpa using ihTail (.list inside (o.span.cover c.span) :: items) span rest

/-- At the top level, the reader adds the spelled lists to the complete forms. -/
theorem foldlM_step_top (h : Spelling ts fs) (lists : ∀ form ∈ fs, form.isList)
    (done : List Form) :
    ts.foldlM Reader.step ⟨done, []⟩ = .ok ⟨fs.reverse ++ done, []⟩ := by
  induction h generalizing done with
  | nil => rfl
  | atom kind reads tail ih =>
    have hlist := lists _ List.mem_cons_self
    rw [Form.isList_of_ofAtom reads] at hlist
    cases hlist
  | @list o c inner ts items forms opening closing inside tail _ ih =>
    have hopen : Reader.step ⟨done, []⟩ o = .ok ⟨done, [⟨o.span, []⟩]⟩ := by
      simp only [Reader.step, opening]
    have hclose : Reader.step ⟨done, [⟨o.span, items.reverse ++ []⟩]⟩ c =
        .ok ⟨.list items (o.span.cover c.span) :: done, []⟩ := by
      simp [Reader.step, closing, close]
    rw [foldlM_list hopen (inside.foldlM_step done [] o.span []) hclose,
      ih fun form hform => lists form (List.mem_cons_of_mem _ hform)]
    simp

end Spelling

/-! ## Reading and writing -/

/-- The tokens parse to the forms if and only if they spell them, all of them lists. -/
theorem parseAll_eq_ok_iff {ts : List Token} {fs : List Form} :
    parseAll ts = .ok fs ↔ fs ≠ [] ∧ (∀ form ∈ fs, form.isList) ∧ Spelling ts fs := by
  constructor
  · intro h
    unfold parseAll at h
    split at h
    · cases h
    · next hts =>
      cases hrun : ts.foldlM Reader.step {} with
      | error e => rw [hrun] at h; cases h
      | ok r =>
        rw [hrun] at h
        have hread := Reader.hasRead_nil.foldlM_step hrun
        rw [List.nil_append] at hread
        cases hread with
        | mk spelled lists opened =>
          cases opened with
          | cons => cases h
          | nil =>
            cases h
            refine ⟨?_, by simpa using lists, by simpa using spelled⟩
            intro hnil
            rw [hnil] at spelled
            cases spelled
            exact hts rfl
  · rintro ⟨hfs, lists, h⟩
    have hts : ts.isEmpty = false := by
      cases h with
      | nil => exact absurd rfl hfs
      | atom | list => rfl
    have hrun : ts.foldlM Reader.step {} = .ok ⟨fs.reverse ++ [], []⟩ := h.foldlM_step_top lists []
    simp only [parseAll, hts, hrun]
    show Except.ok _ = _
    simp

/-- Forms can be spelled as soon as their leaves can. -/
theorem exists_spelling (fs : List Form)
    (h : ∀ leaf ∈ Form.leavesAll fs, ∃ text span, Form.ofAtom text span = .ok leaf) :
    ∃ ts, Spelling ts fs := by
  induction fs using Form.forms_induction with
  | nil => exact ⟨[], .nil⟩
  | leaf form fs hform ih =>
    simp only [Form.leavesAll, Form.leaves_of_isList_eq_false hform, List.mem_append] at h
    obtain ⟨text, span, hread⟩ := h form (.inl List.mem_cons_self)
    obtain ⟨ts, hts⟩ := ih fun leaf hleaf => h leaf (.inr hleaf)
    exact ⟨⟨.atom, text, span⟩ :: ts, .atom rfl hread hts⟩
  | list items span fs ihItems ihRest =>
    simp only [Form.leavesAll, Form.leaves, List.mem_append] at h
    obtain ⟨inner, hinner⟩ := ihItems fun leaf hleaf => h leaf (.inl hleaf)
    obtain ⟨ts, hts⟩ := ihRest fun leaf hleaf => h leaf (.inr hleaf)
    -- Any two spans with this cover would do.
    have hspan : span.cover span = span := by simp [Span.cover]
    refine ⟨⟨.opening, "(", span⟩ :: (inner ++ ⟨.closing, ")", span⟩ :: ts), ?_⟩
    have hlist := Spelling.list (o := ⟨.opening, "(", span⟩) (c := ⟨.closing, ")", span⟩) rfl rfl
      hinner hts
    rwa [hspan] at hlist

/-- Parsing is the inverse of writing out.  Tokens that parse are a spelling of the forms, with the
classes and the leaves in the order of the forms; and lists of readable leaves, one or more, have
spellings, each of which parses to them. -/
theorem parseAll_inverts_spelling :
    (∀ ts fs, parseAll ts = .ok fs →
      ts.map Token.kind = Form.kindsAll fs ∧ readAtoms ts = (Form.leavesAll fs).map .ok ∧
        (∀ form ∈ fs, form.isList) ∧ Spelling ts fs) ∧
    (∀ fs, fs ≠ [] → (∀ form ∈ fs, form.isList) →
      (∀ leaf ∈ Form.leavesAll fs, ∃ text span, Form.ofAtom text span = .ok leaf) →
      (∃ ts, Spelling ts fs) ∧ ∀ ts, Spelling ts fs → parseAll ts = .ok fs) := by
  constructor
  · intro ts fs h
    obtain ⟨-, lists, hspelling⟩ := parseAll_eq_ok_iff.mp h
    exact ⟨hspelling.map_kind, hspelling.readAtoms_eq, lists, hspelling⟩
  · intro fs hfs lists hleaves
    refine ⟨exists_spelling fs hleaves, ?_⟩
    intro ts hts
    exact parseAll_eq_ok_iff.mpr ⟨hfs, lists, hts⟩

/-- The tokens of `(a ())`. -/
theorem parseAll_inverts_spelling_nested :
    Spelling [.openingAt 0, ⟨.atom, "a", ⟨1, 2⟩⟩, .openingAt 3, .closingAt 4, .closingAt 5]
      [.list [.symbol "a" ⟨1, 2⟩, .list [] ⟨3, 5⟩] ⟨0, 6⟩] ∧
    parseAll [.openingAt 0, ⟨.atom, "a", ⟨1, 2⟩⟩, .openingAt 3, .closingAt 4, .closingAt 5] =
      .ok [.list [.symbol "a" ⟨1, 2⟩, .list [] ⟨3, 5⟩] ⟨0, 6⟩] := by
  obtain ⟨hparse, hwrite⟩ := parseAll_inverts_spelling
  have hspelling := (hparse [.openingAt 0, ⟨.atom, "a", ⟨1, 2⟩⟩, .openingAt 3, .closingAt 4,
    .closingAt 5] [.list [.symbol "a" ⟨1, 2⟩, .list [] ⟨3, 5⟩] ⟨0, 6⟩] (by cbv)).2.2.2
  refine ⟨hspelling, (hwrite _ (by simp) (by simp [Form.isList]) ?_).2 _ hspelling⟩
  intro leaf hleaf
  obtain rfl : leaf = .symbol "a" ⟨1, 2⟩ := by
    simpa [Form.leavesAll, Form.leaves] using hleaf
  exact ⟨"a", ⟨1, 2⟩, by cbv⟩

end SmallLisp
