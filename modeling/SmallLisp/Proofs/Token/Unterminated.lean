import Mathlib
import SmallLisp.Proofs.Span
import SmallLisp.Token.Scan

/-!
# Strings that are never closed

A source that is not too large fails to have tokens in one case only: it ends inside a string.
Where that string begins, the scanner remembers by the offset of the last quote that it opened
(`Scan.Follows`).  That the scanner is inside a string at all is a matter of counting quotes.  It
does not depend on what the scanner makes of the other characters, because a quote opens a string
wherever it stands outside of one, and closes the string wherever it stands inside
(`Scan.inString_step`).  So it is the parity of the number of quotes that decides
(`tokenize_error_iff_odd`).
-/

namespace SmallLisp

/-! ## Where the open string begins -/

/-- The text ends inside the string that begins at the byte offset `quote`. -/
def OpensAt (quote : Nat) (cs : List Char) : Prop :=
  ∃ before body, cs = before ++ '"' :: body ∧ '"' ∉ body ∧ quote = byteLength before

namespace Scan

/-- The scanner is at the end of what it has read, and knows where the string begins that it is
in. -/
structure Follows (s : Scan) (cs : List Char) : Prop where
  offset : s.offset = byteLength cs
  quote : ∀ start quote seen, s.mode = .quoted start quote seen → OpensAt quote cs

lemma follows_nil : Follows {} [] := ⟨rfl, nofun⟩

lemma step_offset (s : Scan) (c : Char) : (s.step c).offset = s.offset + c.utf8Size := by
  unfold step
  split <;> repeat' split
  all_goals rfl

/-- Outside of strings it takes a quote to begin one, and it begins there. -/
lemma quote_eq_offset {s : Scan} {c : Char} {start quote : Nat} {seen : List Char}
    (hmode : ∀ start quote seen, s.mode ≠ .quoted start quote seen)
    (h : (s.step c).mode = .quoted start quote seen) : c = '"' ∧ quote = s.offset := by
  unfold step at h
  split at h
  · next hquoted => exact absurd hquoted (hmode _ _ _)
  · repeat' split at h
    all_goals cases h
    exact ⟨‹c = '"'›, rfl⟩

lemma Follows.step {s : Scan} {cs : List Char} (h : s.Follows cs) (c : Char) :
    (s.step c).Follows (cs ++ [c]) := by
  refine ⟨by simp [step_offset, h.offset], fun start quote seen hmode => ?_⟩
  by_cases hquoted : ∃ start quote seen, s.mode = .quoted start quote seen
  · obtain ⟨start', quote', seen', hs⟩ := hquoted
    obtain ⟨before, body, rfl, hbody, hquote⟩ := h.quote start' quote' seen' hs
    by_cases hc : c = '"'
    · simp [Scan.step, hs, hc] at hmode
    · obtain ⟨-, rfl, -⟩ : start' = start ∧ quote' = quote ∧ c :: seen' = seen := by
        simpa [Scan.step, hs, hc] using hmode
      exact ⟨before, body ++ [c], by simp, by simp [hbody, Ne.symm hc], hquote⟩
  · obtain ⟨rfl, rfl⟩ := quote_eq_offset (fun a b c hs => hquoted ⟨a, b, c, hs⟩) hmode
    exact ⟨cs, [], rfl, by simp, h.offset⟩

lemma Follows.foldl_step {s : Scan} {cs ds : List Char} (h : s.Follows cs) :
    (ds.foldl Scan.step s).Follows (cs ++ ds) := by
  induction ds generalizing s cs with
  | nil => simpa using h
  | cons d ds ih => simpa using ih (h.step d)

/-! ## Inside or outside of strings -/

/-- Whether the scanner is inside a string. -/
def inString (s : Scan) : Bool :=
  match s.mode with
  | .quoted .. => true
  | .blank | .word .. => false

/-- A quote leads into a string or out of it, and no other character does. -/
lemma inString_step (s : Scan) (c : Char) : (s.step c).inString = (s.inString ^^ c == '"') := by
  obtain ⟨tokens, offset, mode⟩ := s
  by_cases hc : c = '"'
  · subst hc
    cases mode <;> rfl
  · rw [beq_false_of_ne hc, Bool.xor_false]
    cases mode with
    | quoted => simp [step, hc, inString]
    | blank | word =>
      simp only [step, if_neg hc]
      repeat' split
      all_goals rfl

/-- After any number of characters, the scanner is inside a string if it was there before and the
quotes among them are even in number, or if it was not and they are odd. -/
theorem inString_foldl_step (s : Scan) (cs : List Char) :
    (cs.foldl step s).inString = (s.inString ^^ decide (Odd (cs.count '"'))) := by
  induction cs generalizing s with
  | nil => simp
  | cons c cs ih =>
    rw [List.foldl_cons, ih, inString_step, Bool.xor_assoc, List.count_cons]
    congr 1
    by_cases hc : c = '"'
    · subst hc
      rw [beq_self_eq_true, Bool.true_xor, if_pos rfl, ← decide_not, decide_eq_decide,
        Nat.odd_add_one]
    · rw [beq_false_of_ne hc, Bool.false_xor, if_neg Bool.false_ne_true, Nat.add_zero]

/-- A scan fails if and only if it ends inside a string. -/
lemma exists_finish_eq_error_iff (s : Scan) : (∃ e, s.finish = .error e) ↔ s.inString = true := by
  obtain ⟨tokens, offset, mode⟩ := s
  cases mode <;> simp [finish, inString]

end Scan

/-! ## Sources without tokens -/

/-- A scan fails at a string that runs to the end of the text. -/
lemma scan_error_cases {cs : List Char} {e : ScanError} (h : scan cs = .error e) :
    ∃ quote, OpensAt quote cs ∧ e = .unterminated ⟨quote, byteLength cs⟩ := by
  have hfollows : (cs.foldl Scan.step {}).Follows cs := Scan.follows_nil.foldl_step
  unfold scan Scan.finish at h
  split at h
  · next start quote seen hmode =>
    cases h
    exact ⟨quote, hfollows.quote start quote seen hmode, by rw [hfollows.offset]⟩
  · cases h
  · cases h

/-- A source that has no tokens is too large, or its end lies in a string; the error is located at
that string. -/
theorem tokenize_error_cases {source : String} {e : ScanError} (h : tokenize source = .error e) :
    e = .tooLarge source.utf8ByteSize ∨
      ∃ quote, OpensAt quote source.toList ∧ e = .unterminated ⟨quote, source.utf8ByteSize⟩ := by
  unfold tokenize at h
  split at h
  · right
    simpa using scan_error_cases h
  · cases h
    exact .inl rfl

/-- A source that is not too large has no tokens if and only if the number of quotes in it is odd.
The error is then that of a string that begins at the last quote and runs to the end of the source.
-/
theorem tokenize_error_iff_odd {source : String} (h : source.utf8ByteSize < Span.limit) :
    ((∃ e, tokenize source = .error e) ↔ Odd (source.toList.count '"')) ∧
    ∀ e, tokenize source = .error e → ∃ before body, source.toList = before ++ '"' :: body ∧
      '"' ∉ body ∧ e = .unterminated ⟨byteLength before, source.utf8ByteSize⟩ := by
  rw [tokenize, if_pos h]
  refine ⟨?_, fun e he => ?_⟩
  · rw [scan, Scan.exists_finish_eq_error_iff, Scan.inString_foldl_step]
    simp [Scan.inString]
  · obtain ⟨_, ⟨before, body, hsource, hbody, rfl⟩, rfl⟩ := scan_error_cases he
    exact ⟨before, body, hsource, hbody, by rw [byteLength_toList]⟩

/-- The last quote stands inside an atom, after a string that holds a character of two bytes. -/
theorem tokenize_error_iff_odd_atom :
    let source := "(\"λ\" a\"λ)"
    source.utf8ByteSize < Span.limit ∧ Odd (source.toList.count '"') ∧
      tokenize source = .error (.unterminated ⟨7, 11⟩) ∧
      ∃ before body, source.toList = before ++ '"' :: body ∧ '"' ∉ body ∧
        byteLength before = 7 := by
  intro source
  have hsize : source.utf8ByteSize < Span.limit := by decide
  have hodd : Odd (source.toList.count '"') := by decide
  have herror : tokenize source = .error (.unterminated ⟨7, 11⟩) := by cbv
  obtain ⟨hiff, hplace⟩ := tokenize_error_iff_odd hsize
  obtain ⟨e, he⟩ := hiff.mpr hodd
  obtain ⟨before, body, hsource, hbody, rfl⟩ := hplace e he
  rw [herror, Except.error.injEq, ScanError.unterminated.injEq, Span.mk.injEq] at he
  exact ⟨hsize, hodd, herror, before, body, hsource, hbody, he.1.symm⟩

end SmallLisp
