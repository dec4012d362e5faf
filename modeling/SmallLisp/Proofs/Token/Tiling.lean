import Mathlib
import SmallLisp.Proofs.Span
import SmallLisp.Token.Scan

/-!
# Tokens tile their source

The scanner is a left fold with a mode.  Here the same is said without one: a source is laid out as
separators and lexemes one after the other, and the tokens are the lexemes with their places
(`Tiling`).  What may stand as a lexeme depends on its own characters and on the first character
after it alone (`Lexeme`), so that a tiling can be taken apart and put together anywhere.

The main statement is `scan_eq_ok_iff`: the scanner gives some tokens if and only if they tile the
source.  One direction reads a run of the scanner, for which `Scan.Pending` says what the scanner
has read since the last complete token; the other one runs the scanner along a tiling.
-/

namespace SmallLisp

/-! ## Classes of characters -/

/-- The characters that end an atom without being part of it. -/
def isDelimiter (c : Char) : Bool := isSeparator c || c == '(' || c == ')'

/-- The characters of the unquoted part of an atom. -/
def isPlain (c : Char) : Bool := !isDelimiter c && c != '"'

/-- Whether a text is empty or begins with a delimiter, so that no atom runs on into it. -/
def EndsAtom (rest : List Char) : Prop := ∀ c, rest.head? = some c → isDelimiter c

lemma endsAtom_nil : EndsAtom [] := by
  intro c hc
  cases hc

lemma endsAtom_cons {c : Char} {rest : List Char} (h : isDelimiter c) : EndsAtom (c :: rest) := by
  intro d hd
  cases hd
  exact h

lemma isPlain_eq_false_of_isDelimiter {c : Char} (h : isDelimiter c) : isPlain c = false := by
  simp [isPlain, h]

lemma isDelimiter_or_isPlain (c : Char) : isDelimiter c ∨ c = '"' ∨ isPlain c := by
  by_cases hd : isDelimiter c
  · exact .inl hd
  · by_cases hq : c = '"'
    · exact .inr (.inl hq)
    · exact .inr (.inr (by simp [isPlain, hd, hq]))

lemma not_mem_quote_of_isPlain {text : List Char} (plain : ∀ c ∈ text, isPlain c) :
    '"' ∉ text := by
  intro h
  simpa [isPlain] using plain _ h

/-! ## Lexemes -/

/-- The texts of atoms: plain characters, at least one, or plain characters and a quoted part. -/
inductive IsAtom : List Char → Prop
  | word {text : List Char} (nonempty : text ≠ []) (plain : ∀ c ∈ text, isPlain c) : IsAtom text
  | quoted {lead body : List Char} (plain : ∀ c ∈ lead, isPlain c) (unquoted : '"' ∉ body) :
      IsAtom (lead ++ '"' :: (body ++ ['"']))

/-- The texts of tokens of a kind, where `rest` stands after them. -/
inductive Lexeme : Token.Kind → List Char → List Char → Prop
  | opening {rest : List Char} : Lexeme .opening ['('] rest
  | closing {rest : List Char} : Lexeme .closing [')'] rest
  | atom {text rest : List Char} (isAtom : IsAtom text) (ends : '"' ∉ text → EndsAtom rest) :
      Lexeme .atom text rest

lemma IsAtom.ne_nil {text : List Char} (h : IsAtom text) : text ≠ [] := by
  cases h with
  | word nonempty => exact nonempty
  | quoted => simp

lemma Lexeme.ne_nil {kind : Token.Kind} {text rest : List Char} (h : Lexeme kind text rest) :
    text ≠ [] := by
  cases h with
  | opening | closing => simp
  | atom isAtom => exact isAtom.ne_nil

/-- The token of a kind that has this text at a byte offset. -/
def Token.ofChars (offset : Nat) (kind : Token.Kind) (text : List Char) : Token :=
  ⟨kind, String.ofList text, ⟨offset, offset + byteLength text⟩⟩

/-- The tokens are the lexemes of the text, which begins at a byte offset, in order; between them
there are separators only. -/
inductive Tiling : Nat → List Char → List Token → Prop
  | done {offset : Nat} : Tiling offset [] []
  | separator {offset : Nat} {c : Char} {rest : List Char} {tokens : List Token}
      (blank : isSeparator c) (tail : Tiling (offset + c.utf8Size) rest tokens) :
      Tiling offset (c :: rest) tokens
  | token {offset : Nat} {kind : Token.Kind} {text rest : List Char} {tokens : List Token}
      (lexeme : Lexeme kind text rest) (tail : Tiling (offset + byteLength text) rest tokens) :
      Tiling offset (text ++ rest) (.ofChars offset kind text :: tokens)

/-! ## Runs of the scanner -/

namespace Scan

variable {tokens : List Token} {offset start : Nat} {seen : List Char} {c : Char}

lemma step_separator (h : isSeparator c) :
    step ⟨tokens, offset, .blank⟩ c = ⟨tokens, offset + c.utf8Size, .blank⟩ := by
  simp [step, flushed, h]

/-- A delimiter has the same effect after an atom as after the token that the atom makes. -/
lemma step_word_of_isDelimiter (h : isDelimiter c) :
    step ⟨tokens, offset, .word start seen⟩ c =
      step ⟨atom start offset seen :: tokens, offset, .blank⟩ c := by
  simp only [isDelimiter, Bool.or_eq_true, beq_iff_eq] at h
  rcases h with (h | rfl) | rfl
  · simp [step, flushed, h]
  · rfl
  · rfl

/-- The tests that a plain character fails. -/
lemma not_delimiter_of_isPlain (h : isPlain c) :
    isSeparator c = false ∧ c ≠ '(' ∧ c ≠ ')' ∧ c ≠ '"' := by
  simpa [isPlain, isDelimiter, and_assoc] using h

lemma step_blank_of_isPlain (h : isPlain c) :
    step ⟨tokens, offset, .blank⟩ c = ⟨tokens, offset + c.utf8Size, .word offset [c]⟩ := by
  obtain ⟨h₁, h₂, h₃, h₄⟩ := not_delimiter_of_isPlain h
  simp [step, h₁, h₂, h₃, h₄]

lemma step_word_of_isPlain (h : isPlain c) :
    step ⟨tokens, offset, .word start seen⟩ c =
      ⟨tokens, offset + c.utf8Size, .word start (c :: seen)⟩ := by
  obtain ⟨h₁, h₂, h₃, h₄⟩ := not_delimiter_of_isPlain h
  simp [step, h₁, h₂, h₃, h₄]

lemma step_quoted (h : c ≠ '"') {quote : Nat} :
    step ⟨tokens, offset, .quoted start quote seen⟩ c =
      ⟨tokens, offset + c.utf8Size, .quoted start quote (c :: seen)⟩ := by
  simp [step, h]

/-- What the scanner has read since the last complete token, and where that begins. -/
inductive Pending : Scan → Nat → List Char → Prop
  | blank {tokens : List Token} {offset : Nat} : Pending ⟨tokens, offset, .blank⟩ offset []
  | word {tokens : List Token} {start : Nat} {text : List Char} (nonempty : text ≠ [])
      (plain : ∀ c ∈ text, isPlain c) :
      Pending ⟨tokens, start + byteLength text, .word start text.reverse⟩ start text
  | quoted {tokens : List Token} {start : Nat} {lead body : List Char}
      (plain : ∀ c ∈ lead, isPlain c) (unquoted : '"' ∉ body) :
      Pending ⟨tokens, start + byteLength (lead ++ '"' :: body),
        .quoted start (start + byteLength lead) (lead ++ '"' :: body).reverse⟩
        start (lead ++ '"' :: body)

lemma atom_reverse (start : Nat) (text : List Char) :
    atom start (start + byteLength text) text.reverse = .ofChars start .atom text := by
  rw [atom, List.reverse_reverse]
  rfl

/-- One more character completes some tokens, possibly none, and leaves something pending.  What
tiles the text from there on tiles it from the old start on, with these tokens before it. -/
def Advances (s : Scan) (start : Nat) (text : List Char) (c : Char) : Prop :=
  ∃ completed start' text', (s.step c).tokens = completed.reverse ++ s.tokens ∧
    Pending (s.step c) start' text' ∧ ∀ cs later, Tiling start' (text' ++ cs) later →
      Tiling start (text ++ c :: cs) (completed ++ later)

/-- A character that continues what is pending completes nothing. -/
lemma advances_of_pending {s : Scan} {text : List Char} (htokens : (s.step c).tokens = s.tokens)
    (hp : Pending (s.step c) start (text ++ [c])) : Advances s start text c := by
  refine ⟨[], start, text ++ [c], htokens, hp, ?_⟩
  intro cs later h
  simpa using h

lemma advances_delimiter (hc : isDelimiter c) : Advances ⟨tokens, offset, .blank⟩ offset [] c := by
  simp only [isDelimiter, Bool.or_eq_true, beq_iff_eq] at hc
  rcases hc with (hc | rfl) | rfl
  · refine ⟨[], offset + c.utf8Size, [], by simp [step_separator hc], ?_, ?_⟩
    · rw [step_separator hc]
      exact .blank
    · intro cs later h
      exact .separator hc h
  · refine ⟨[.openingAt offset], offset + 1, [], rfl, .blank, ?_⟩
    intro cs later h
    exact .token .opening h
  · refine ⟨[.closingAt offset], offset + 1, [], rfl, .blank, ?_⟩
    intro cs later h
    exact .token .closing h

/-- Every character advances the scan of what is pending. -/
theorem Pending.advances {s : Scan} {text : List Char} (hp : Pending s start text) (c : Char) :
    Advances s start text c := by
  cases hp with
  | @blank tokens offset =>
    rcases isDelimiter_or_isPlain c with hc | rfl | hc
    · exact advances_delimiter hc
    · exact advances_of_pending rfl (@Pending.quoted tokens start [] [] (by simp) (by simp))
    · apply advances_of_pending
      · rw [step_blank_of_isPlain hc]
      · rw [step_blank_of_isPlain hc]
        exact @Pending.word tokens start [c] (by simp) (by simpa using hc)
  | @word tokens _ _ nonempty plain =>
    rcases isDelimiter_or_isPlain c with hc | rfl | hc
    · -- The word is complete, and the delimiter is read as if there had been no word.
      obtain ⟨completed, start', text', htokens, hpending, htiling⟩ :=
        @advances_delimiter (.ofChars start .atom text :: tokens) (start + byteLength text) c hc
      have hstep :=
        @step_word_of_isDelimiter tokens (start + byteLength text) start text.reverse c hc
      rw [atom_reverse] at hstep
      refine ⟨.ofChars start .atom text :: completed, start', text', ?_, ?_, ?_⟩
      · simp [hstep, htokens]
      · rwa [hstep]
      · intro cs later h
        exact .token (.atom (.word nonempty plain) fun _ => endsAtom_cons hc) (htiling cs later h)
    · -- The word was the part of an atom before its string.
      have hq := @Pending.quoted tokens start text [] plain (by simp)
      apply advances_of_pending
      · simp [step, isSeparator]
      · simpa [step, isSeparator, Nat.add_assoc] using hq
    · apply advances_of_pending
      · rw [step_word_of_isPlain hc]
      · rw [step_word_of_isPlain hc]
        have hw := @Pending.word tokens start (text ++ [c]) (by simp)
          (by simpa [or_imp, forall_and] using ⟨plain, hc⟩)
        simpa [Nat.add_assoc] using hw
  | @quoted tokens _ lead body plain unquoted =>
    by_cases hc : c = '"'
    · subst hc
      have hatom : IsAtom (lead ++ '"' :: (body ++ ['"'])) := .quoted plain unquoted
      refine ⟨[.ofChars start .atom (lead ++ '"' :: (body ++ ['"']))], _, [], ?_, .blank, ?_⟩
      · simp [step, atom, Token.ofChars, Nat.add_assoc]
      · intro cs later h
        have htoken := @Tiling.token start _ _ cs later (.atom hatom (by simp))
          (by simpa [Nat.add_assoc] using h)
        simpa using htoken
    · apply advances_of_pending
      · rw [step_quoted hc]
      · rw [step_quoted hc]
        have hq := @Pending.quoted tokens start lead (body ++ [c]) plain
          (by simpa [or_imp, not_or] using ⟨unquoted, Ne.symm hc⟩)
        simpa [Nat.add_assoc] using hq

/-- The tokens that a scan adds to those it has already tile what is pending together with the
rest of the source. -/
theorem exists_tiling {s : Scan} {text cs : List Char} {ts : List Token}
    (hp : Pending s start text) (h : (cs.foldl step s).finish = .ok ts) :
    ∃ later, ts = s.tokens.reverse ++ later ∧ Tiling start (text ++ cs) later := by
  induction cs generalizing s start text with
  | nil =>
    cases hp with
    | blank =>
      cases h
      exact ⟨[], by simp [flushed], .done⟩
    | word nonempty plain =>
      cases h
      refine ⟨[.ofChars start .atom text], by simp [flushed, atom, Token.ofChars], ?_⟩
      exact .token (.atom (.word nonempty plain) fun _ => endsAtom_nil) .done
    | quoted => cases h
  | cons c cs ih =>
    obtain ⟨completed, start', text', htokens, hpending, htiling⟩ := hp.advances c
    obtain ⟨later, rfl, hlater⟩ := ih hpending h
    exact ⟨completed ++ later, by simp [htokens], htiling cs later hlater⟩

/-! ## Runs along a tiling -/

lemma foldl_step_word {text : List Char} (plain : ∀ c ∈ text, isPlain c) :
    text.foldl step ⟨tokens, offset, .word start seen⟩ =
      ⟨tokens, offset + byteLength text, .word start (text.reverse ++ seen)⟩ := by
  induction text generalizing offset seen with
  | nil => rfl
  | cons c rest ih =>
    rw [List.foldl_cons, step_word_of_isPlain (plain c List.mem_cons_self),
      ih fun d hd => plain d (List.mem_cons_of_mem _ hd)]
    simp [Nat.add_assoc]

lemma foldl_step_blank {text : List Char} (nonempty : text ≠ []) (plain : ∀ c ∈ text, isPlain c) :
    text.foldl step ⟨tokens, offset, .blank⟩ =
      ⟨tokens, offset + byteLength text, .word offset text.reverse⟩ := by
  cases text with
  | nil => exact absurd rfl nonempty
  | cons c rest =>
    rw [List.foldl_cons, step_blank_of_isPlain (plain c List.mem_cons_self),
      foldl_step_word fun d hd => plain d (List.mem_cons_of_mem _ hd)]
    simp [Nat.add_assoc]

lemma foldl_step_quoted {body : List Char} (unquoted : '"' ∉ body) {quote : Nat} :
    body.foldl step ⟨tokens, offset, .quoted start quote seen⟩ =
      ⟨tokens, offset + byteLength body, .quoted start quote (body.reverse ++ seen)⟩ := by
  induction body generalizing offset seen with
  | nil => rfl
  | cons c rest ih =>
    rw [List.mem_cons, not_or] at unquoted
    rw [List.foldl_cons, step_quoted (Ne.symm unquoted.1), ih unquoted.2]
    simp [Nat.add_assoc]

/-- A quoted atom is complete with its second quote, whatever comes after it. -/
lemma foldl_step_quotedAtom {lead body : List Char} (plain : ∀ c ∈ lead, isPlain c)
    (unquoted : '"' ∉ body) :
    (lead ++ '"' :: (body ++ ['"'])).foldl step ⟨tokens, offset, .blank⟩ =
      ⟨.ofChars offset .atom (lead ++ '"' :: (body ++ ['"'])) :: tokens,
        offset + byteLength (lead ++ '"' :: (body ++ ['"'])), .blank⟩ := by
  have hlead : (lead ++ ['"']).foldl step ⟨tokens, offset, .blank⟩ =
      ⟨tokens, offset + byteLength (lead ++ ['"']),
        .quoted offset (offset + byteLength lead) ('"' :: lead.reverse)⟩ := by
    rw [List.foldl_append]
    by_cases h : lead = []
    · subst h
      rfl
    · rw [foldl_step_blank h plain]
      simp [step, isSeparator, Nat.add_assoc]
  have hsplit : lead ++ '"' :: (body ++ ['"']) = (lead ++ ['"']) ++ (body ++ ['"']) := by simp
  rw [hsplit, List.foldl_append, hlead, List.foldl_append, foldl_step_quoted unquoted]
  simp [step, atom, Token.ofChars, Nat.add_assoc]

/-- Scanning a tiled text gives its tokens. -/
theorem finish_of_tiling {cs : List Char} {ts : List Token} (h : Tiling offset cs ts)
    (tokens : List Token) :
    (cs.foldl step ⟨tokens, offset, .blank⟩).finish = .ok (tokens.reverse ++ ts) := by
  induction h generalizing tokens with
  | done => simp [finish, flushed]
  | separator blank tail ih => rw [List.foldl_cons, step_separator blank, ih]
  | @token offset kind text rest ts lexeme tail ih =>
    have ih' := ih (.ofChars offset kind text :: tokens)
    rw [List.reverse_cons, List.append_assoc] at ih'
    rw [List.foldl_append]
    cases lexeme with
    | opening | closing => exact ih'
    | atom isAtom ends =>
      cases isAtom with
      | quoted plain unquoted => rwa [foldl_step_quotedAtom plain unquoted]
      | word nonempty plain =>
        rw [foldl_step_blank nonempty plain]
        have hquote := not_mem_quote_of_isPlain plain
        cases rest with
        | nil => simpa [finish, flushed, atom, Token.ofChars] using ih'
        | cons c rest =>
          rw [List.foldl_cons, step_word_of_isDelimiter (ends hquote c rfl)]
          simpa [atom, Token.ofChars] using ih'

end Scan

/-- The scanner gives some tokens if and only if they tile the source. -/
theorem scan_eq_ok_iff {cs : List Char} {ts : List Token} : scan cs = .ok ts ↔ Tiling 0 cs ts := by
  constructor
  · intro h
    obtain ⟨later, rfl, htiling⟩ := Scan.exists_tiling .blank h
    exact htiling
  · intro h
    exact Scan.finish_of_tiling h []

/-- A source that is not too long has the tokens that tile it. -/
lemma tokenize_eq_ok_iff {source : String} {ts : List Token} :
    tokenize source = .ok ts ↔ source.utf8ByteSize < Span.limit ∧ Tiling 0 source.toList ts := by
  unfold tokenize
  split
  · next hsize => simp [hsize, scan_eq_ok_iff]
  · next hsize => simp [hsize]

end SmallLisp
