import Mathlib
import SmallLisp.Proofs.Form.Leaves
import SmallLisp.Proofs.Number.Literal
import SmallLisp.Proofs.Token.Tiling

/-!
# The text of an atom is an atom again

What an atom stands for is written as an atom that stands for the same (`readable_of_ofAtom`).
Strings and symbols are written the way they were read, to the letter.  Numbers are not, and here
it matters that the text of a double is never an integer literal, and that numbers are written
without delimiters and quotes.
-/

namespace SmallLisp.Form

/-- Whether the text of the form is an atom that stands for the form, wherever it is read. -/
def Readable (form : Form) : Prop :=
  IsAtom form.text.toList ∧ ∀ span, ∃ read, ofAtom form.text span = .ok read ∧ read.bare = form.bare

/-! ## Texts of numbers -/

lemma isPlain_of_isDigit {c : Char} (h : c.isDigit) : isPlain c := by
  rcases isDelimiter_or_isPlain c with hc | rfl | hc
  · simp only [isDelimiter, isSeparator, Bool.or_eq_true, beq_iff_eq] at hc
    rcases hc with ((((rfl | rfl) | rfl) | rfl) | rfl) | rfl <;> cases h
  · cases h
  · exact hc

lemma isAtom_text_integer (n : Int64) : IsAtom (Integer.text n).toList := by
  have hdigits : ∀ c ∈ Nat.toDigits 10 n.toInt.natAbs, isPlain c :=
    fun c hc => isPlain_of_isDigit (Nat.isDigit_of_mem_toDigits (by decide) (by decide) hc)
  rw [Literal.toList_text]
  split
  · refine .word (by simp) (List.forall_mem_cons.mpr ⟨by decide, hdigits⟩)
  · exact .word Nat.toDigits_ne_nil hdigits

lemma isAtom_write (x : Double) : IsAtom (Layout.positional.write x).toList := by
  have hsign {negative : Bool} {body : List Char} (hne : body ≠ [])
      (hbody : ∀ c ∈ body, isPlain c) : IsAtom (if negative then '-' :: body else body) := by
    split
    · exact .word (by simp) (List.forall_mem_cons.mpr ⟨by decide, hbody⟩)
    · exact .word hne hbody
  rcases Literal.write_cases x with hnan | ⟨body, htext, rfl | ⟨d, rfl⟩⟩
  · rw [hnan]
    exact .word (by simp) (List.all_eq_true.mp rfl)
  · rw [htext]
    exact hsign (by simp) (List.all_eq_true.mp rfl)
  · obtain ⟨whole, fraction, hplain, -, hwhole, hfraction, -⟩ := d.exists_plain
    rw [htext, hplain]
    apply hsign
    · simp
    · simp only [List.forall_mem_append, List.forall_mem_cons]
      exact ⟨fun c hc => isPlain_of_isDigit (hwhole c hc), by decide,
        fun c hc => isPlain_of_isDigit (hfraction c hc)⟩

/-! ## Reading the text of an atom -/

/-- The place of an atom has no effect on what it stands for. -/
lemma exists_ofAtom {text : String} {span : Span} {form : Form} (h : ofAtom text span = .ok form)
    (other : Span) : ∃ read, ofAtom text other = .ok read ∧ read.bare = form.bare := by
  unfold ofAtom at h ⊢
  simp only at h ⊢
  split at h
  · next hinteger =>
    split at h
    · next n hn =>
      cases h
      exact ⟨.int n other, by simp [hinteger], rfl⟩
    · cases h
  · next hinteger =>
    split at h
    · next x hx =>
      cases h
      exact ⟨.float x other, by simp [hinteger], rfl⟩
    · next hx =>
      split at h
      · next inner hinner =>
        cases h
        exact ⟨.str (String.ofList inner) other, by simp [hinteger], rfl⟩
      · next hinner =>
        cases h
        exact ⟨.symbol text other, by simp [hinteger], rfl⟩

/-- A quoted text is its inside between quotes. -/
lemma unquote?_eq_some {cs inner : List Char} (h : unquote? cs = some inner) :
    cs = '"' :: (inner ++ ['"']) := by
  unfold unquote? at h
  split at h
  · next rest =>
    split at h
    · next hlast =>
      cases h
      obtain ⟨inside, rfl⟩ := List.getLast?_eq_some_iff.mp hlast
      rw [List.dropLast_concat]
    · cases h
  · cases h

/-- What an atom stands for is written as an atom that stands for the same. -/
theorem readable_of_ofAtom {text : String} {span : Span} {form : Form}
    (h : ofAtom text span = .ok form) (hatom : IsAtom text.toList) : form.Readable := by
  have hread := exists_ofAtom h
  have hunchanged : form.text = text → form.Readable := by
    intro htext
    rw [Readable, htext]
    exact ⟨hatom, hread⟩
  unfold ofAtom at h
  simp only at h
  split at h
  · split at h
    · next n hn =>
      cases h
      refine ⟨by simpa [Form.text] using isAtom_text_integer n, fun span => ⟨.int n span, ?_, rfl⟩⟩
      simp [Form.text, ofAtom, Literal.isInteger_text, Literal.integerValue_text,
        Integer.ofInt?_toInt]
    · cases h
  · split at h
    · next x hx =>
      cases h
      refine ⟨by simpa [Form.text] using isAtom_write x, fun span =>
        ⟨.float (Binary64.canonical x) span, ?_, by simp [bare]⟩⟩
      simp [Form.text, ofAtom, Literal.isInteger_write, Literal.double?_write]
    · split at h
      · next inner hinner =>
        cases h
        apply hunchanged
        rw [Form.text, ← String.toList_inj]
        simp [unquote?_eq_some hinner]
      · cases h
        exact hunchanged rfl

end SmallLisp.Form
