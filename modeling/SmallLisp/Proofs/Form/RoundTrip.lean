import Mathlib
import SmallLisp.Interpreter
import SmallLisp.Proofs.Form.Atom
import SmallLisp.Proofs.Form.Spelling
import SmallLisp.Proofs.Token.Partition

/-!
# Forms that are written read back

The text of forms that were read can be read again, and gives the same forms up to their places
(`read_text`).  Both ways meet at the tokens: a source is read as some forms if and only if it is
tiled by tokens that spell them (`read_eq_ok_iff`), and the text of forms, wherever it stands, is
tiled by tokens that spell the forms (`Rereads`).  For lists and for forms in a row the latter is
composed from the parts, provided that a delimiter or nothing at all comes after each part, so that
no two atoms run together.
-/

namespace SmallLisp

/-! ## Reading -/

/-- A source is read as forms if and only if it is tiled by tokens that spell them, all of them
lists. -/
theorem read_eq_ok_iff {source : String} {fs : List Form} :
    read source = .ok fs ↔ source.utf8ByteSize < Span.limit ∧ (∀ form ∈ fs, form.isList) ∧
      ∃ ts, Tiling 0 source.toList ts ∧ Spelling ts fs := by
  unfold read
  constructor
  · intro h
    split at h
    · cases h
    · next htokens =>
      cases h
      obtain ⟨hsize, htiling⟩ := tokenize_eq_ok_iff.mp htokens
      exact ⟨hsize, by simp, [], htiling, .nil⟩
    · next ts hne htokens =>
      obtain ⟨hsize, htiling⟩ := tokenize_eq_ok_iff.mp htokens
      cases hparse : parseAll ts with
      | error e => rw [hparse] at h; cases h
      | ok forms =>
        rw [hparse] at h
        cases h
        obtain ⟨-, lists, hspelling⟩ := parseAll_eq_ok_iff.mp hparse
        exact ⟨hsize, lists, ts, htiling, hspelling⟩
  · rintro ⟨hsize, lists, ts, htiling, hspelling⟩
    rw [tokenize_eq_ok_iff.mpr ⟨hsize, htiling⟩]
    cases ts with
    | nil =>
      cases hspelling
      rfl
    | cons t ts =>
      have hfs : fs ≠ [] := by
        rintro rfl
        cases hspelling
      have hparse := parseAll_eq_ok_iff.mpr ⟨hfs, lists, hspelling⟩
      simp only [hparse]
      rfl

/-! ## The text of several forms -/

namespace Form

/-- The characters of the text of several forms. -/
def line (fs : List Form) : List Char := (" ".intercalate (texts fs)).toList

/-- What comes after a form in the text of several forms. -/
def lineAfter : List Form → List Char
  | [] => []
  | form :: fs => ' ' :: line (form :: fs)

lemma line_cons (form : Form) (fs : List Form) :
    line (form :: fs) = form.text.toList ++ lineAfter fs := by
  cases fs with
  | nil => simp [line, lineAfter, texts]
  | cons next fs => simp [line, lineAfter, texts]

/-- What follows a form in the text of several forms is kept apart from it. -/
lemma endsAtom_lineAfter {rest : List Char} (h : EndsAtom rest) (fs : List Form) :
    EndsAtom (lineAfter fs ++ rest) := by
  cases fs with
  | nil => exact h
  | cons form fs => exact endsAtom_cons (by decide)

end Form

/-! ## Texts that read as forms -/

/-- Whether the text, wherever it stands, is tiled by tokens that spell the forms up to spans. -/
def Rereads (text : List Char) (fs : List Form) : Prop :=
  ∀ offset rest tokens, EndsAtom rest → Tiling (offset + byteLength text) rest tokens →
    ∃ ts gs, Tiling offset (text ++ rest) (ts ++ tokens) ∧ Spelling ts gs ∧
      Form.bareAll gs = Form.bareAll fs

namespace Rereads

variable {text inner : List Char} {form : Form} {fs items : List Form}

lemma nil : Rereads [] [] := by
  intro offset rest tokens _ htail
  exact ⟨[], [], htail, .nil, rfl⟩

/-- A separator before a text is skipped. -/
lemma separator (h : Rereads text fs) : Rereads (' ' :: text) fs := by
  intro offset rest tokens hrest htail
  rw [byteLength_cons, ← Nat.add_assoc] at htail
  obtain ⟨ts, gs, htiling, hspelling, hbare⟩ := h _ rest tokens hrest htail
  exact ⟨ts, gs, .separator (by decide) htiling, hspelling, hbare⟩

lemma lineAfter (h : Rereads (Form.line fs) fs) : Rereads (Form.lineAfter fs) fs := by
  cases fs with
  | nil => exact nil
  | cons form fs => exact h.separator

/-- An atom stands before what keeps it apart. -/
lemma atom (hform : form.Readable) (h : Rereads (Form.lineAfter fs) fs) :
    Rereads (form.text.toList ++ Form.lineAfter fs) (form :: fs) := by
  intro offset rest tokens hrest htail
  rw [byteLength_append, ← Nat.add_assoc] at htail
  obtain ⟨ts, gs, htiling, hspelling, hbare⟩ := h _ rest tokens hrest htail
  obtain ⟨hatom, hread⟩ := hform
  obtain ⟨leaf, hleaf, hsame⟩ := hread ⟨offset, offset + byteLength form.text.toList⟩
  have hlexeme : Lexeme .atom form.text.toList (Form.lineAfter fs ++ rest) :=
    .atom hatom fun _ => Form.endsAtom_lineAfter hrest fs
  refine ⟨.ofChars offset .atom form.text.toList :: ts, leaf :: gs, ?_, ?_, ?_⟩
  · simpa using Tiling.token hlexeme htiling
  · exact .atom rfl (by simpa [Token.ofChars] using hleaf) hspelling
  · rw [Form.bareAll, Form.bareAll, hsame, hbare]

/-- A list is its items between parentheses. -/
lemma list {span : Span} (hinner : Rereads inner items) (h : Rereads text fs) :
    Rereads ('(' :: (inner ++ ')' :: text)) (.list items span :: fs) := by
  intro offset rest tokens hrest htail
  have hlength : offset + byteLength ('(' :: (inner ++ ')' :: text)) =
      offset + byteLength ['('] + byteLength inner + byteLength [')'] + byteLength text := by
    simp only [byteLength_cons, byteLength_append, byteLength_nil]
    omega
  rw [hlength] at htail
  obtain ⟨ts, gs, htiling, hspelling, hbare⟩ := h _ rest tokens hrest htail
  have hclosing := Tiling.token .closing htiling
  obtain ⟨us, hs, htiling', hspelling', hbare'⟩ :=
    hinner _ _ _ (endsAtom_cons (by decide)) hclosing
  have hopening := Tiling.token .opening htiling'
  refine ⟨.ofChars offset .opening ['('] ::
    (us ++ .ofChars (offset + byteLength ['('] + byteLength inner) .closing [')'] :: ts),
    .list hs _ :: gs, ?_, .list rfl rfl hspelling' hspelling, ?_⟩
  · simpa using hopening
  · simp [Form.bareAll, Form.bare, hbare, hbare']

end Rereads

/-- The text of forms reads as these forms, if the texts of their leaves do. -/
theorem rereads_line (fs : List Form) (h : ∀ leaf ∈ Form.leavesAll fs, leaf.Readable) :
    Rereads (Form.line fs) fs := by
  induction fs using Form.forms_induction with
  | nil => exact .nil
  | leaf form fs hform ih =>
    simp only [Form.leavesAll, Form.leaves_of_isList_eq_false hform, List.mem_append] at h
    have hrest := ih fun leaf hleaf => h leaf (.inr hleaf)
    rw [Form.line_cons]
    exact .atom (h form (.inl List.mem_cons_self)) hrest.lineAfter
  | list items span fs ihItems ihRest =>
    simp only [Form.leavesAll, Form.leaves, List.mem_append] at h
    have hitems := ihItems fun leaf hleaf => h leaf (.inl hleaf)
    have hrest := ihRest fun leaf hleaf => h leaf (.inr hleaf)
    have htext : Form.line (.list items span :: fs) =
        '(' :: (Form.line items ++ ')' :: Form.lineAfter fs) := by
      rw [Form.line_cons, Form.text]
      simp [Form.line]
    rw [htext]
    exact hitems.list hrest.lineAfter

/-! ## Writing and reading -/

/-- The leaves of forms that tokens of a source spell can be read from their texts. -/
lemma readable_of_spelling {source : String} {ts : List Token} {fs : List Form}
    (htiling : Tiling 0 source.toList ts) (hspelling : Spelling ts fs) :
    ∀ leaf ∈ Form.leavesAll fs, leaf.Readable := by
  intro leaf hleaf
  have hmem : .ok leaf ∈ readAtoms ts := by
    rw [hspelling.readAtoms_eq]
    exact List.mem_map_of_mem hleaf
  obtain ⟨t, ht, hread⟩ := List.mem_map.mp hmem
  obtain ⟨ht, hkind⟩ := List.mem_filter.mp ht
  exact Form.readable_of_ofAtom hread (htiling.partition.atom t ht (of_decide_eq_true hkind))

/-- The text of the forms of a source, one space between them, is read as the same forms up to
spans, provided that it is not too long to be read at all.  A double comes back as it was, with the
sign of a zero, and what is no number as what is no number. -/
theorem read_text (source : String) (fs : List Form) (h : read source = .ok fs)
    (hsize : (" ".intercalate (Form.texts fs)).utf8ByteSize < Span.limit) :
    ∃ gs, read (" ".intercalate (Form.texts fs)) = .ok gs ∧ Form.bareAll gs = Form.bareAll fs := by
  obtain ⟨-, lists, ts, htiling, hspelling⟩ := read_eq_ok_iff.mp h
  have hreadable := readable_of_spelling htiling hspelling
  obtain ⟨us, gs, htiling', hspelling', hbare⟩ :=
    rereads_line fs hreadable 0 [] [] endsAtom_nil .done
  rw [List.append_nil, List.append_nil] at htiling'
  have lists' := Form.isList_of_bareAll_eq hbare lists
  exact ⟨gs, read_eq_ok_iff.mpr ⟨hsize, lists', us, htiling', hspelling'⟩, hbare⟩

/-- The second atom begins where the string in the first one ends, and loses its sign. -/
theorem read_text_adjacent :
    ∃ fs, read "(a\")\"+1)" = .ok fs ∧
      ∃ gs, read "(a\")\" 1)" = .ok gs ∧ Form.bareAll gs = Form.bareAll fs := by
  have hread : read "(a\")\"+1)" =
      .ok [.list [.symbol "a\")\"" ⟨1, 5⟩, .int 1 ⟨5, 7⟩] ⟨0, 8⟩] := by
    cbv
  have htext : " ".intercalate (Form.texts
      [.list [.symbol "a\")\"" ⟨1, 5⟩, .int 1 ⟨5, 7⟩] ⟨0, 8⟩]) = "(a\")\" 1)" := by
    cbv
  have hreread := read_text _ _ hread (by rw [htext]; decide)
  rw [htext] at hreread
  exact ⟨_, hread, hreread⟩

end SmallLisp
