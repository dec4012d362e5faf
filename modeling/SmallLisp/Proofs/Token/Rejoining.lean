import Mathlib
import SmallLisp.Proofs.Token.Partition

/-!
# Writing tokens out again

The tokens of a source can be written one after the other and scanned again: they come back with the
same kinds and texts (`tokenize_rejoined`).  What stood between them in the source need not be
written.  Only two atoms in a row have to be kept apart; in the source they may even touch, when the
first of them ends with a string.

A token comes back because whether its text is a lexeme depends on what follows in one respect only,
namely that no atom runs on into it (`Lexeme.before`).  A separator is in the way of that, and so is
a parenthesis, which is how the texts of all tokens other than atoms begin.
-/

namespace SmallLisp

/-! ## Joining -/

namespace Token

/-- What a token is, apart from its place. -/
def content (t : Token) : Kind × String := (t.kind, t.text)

/-- The texts of tokens that come after the token `t`, with what `gap` puts between neighbours. -/
def joinedAfter (gap : Token → Token → String) (t : Token) : List Token → String
  | [] => ""
  | u :: rest => gap t u ++ (u.text ++ joinedAfter gap u rest)

/-- The texts of tokens in a row, with what `gap` puts between neighbours. -/
def joined (gap : Token → Token → String) : List Token → String
  | [] => ""
  | t :: rest => t.text ++ joinedAfter gap t rest

/-- One space between two atoms, and nothing between other tokens. -/
def spaceBetweenAtoms (t u : Token) : String :=
  if t.kind = .atom ∧ u.kind = .atom then " " else ""

/-- What is put between tokens consists of separators, and keeps atoms apart. -/
structure Separates (gap : Token → Token → String) : Prop where
  blank : ∀ t u, ∀ c ∈ (gap t u).toList, isSeparator c
  apart : ∀ t u, t.kind = .atom → u.kind = .atom → gap t u ≠ ""

variable {gap : Token → Token → String} {t u : Token} {ts : List Token}

lemma separates_space : Separates fun _ _ => " " where
  blank _ _ c hc := by
    obtain rfl : c = ' ' := by simpa using hc
    rfl
  apart _ _ _ _ := by decide

lemma separates_spaceBetweenAtoms : Separates spaceBetweenAtoms where
  blank t u c hc := by
    unfold spaceBetweenAtoms at hc
    split at hc
    · exact separates_space.blank t u c hc
    · simp at hc
  apart t u ht hu := by
    rw [spaceBetweenAtoms, if_pos ⟨ht, hu⟩]
    decide

/-- With one space everywhere, the texts are joined as words are joined to a line. -/
lemma joined_space (ts : List Token) :
    joined (fun _ _ => " ") ts = " ".intercalate (ts.map text) := by
  cases ts with
  | nil => rfl
  | cons t ts =>
    rw [joined]
    induction ts generalizing t with
    | nil => simp [joinedAfter]
    | cons u ts ih => simp [joinedAfter, ih, String.append_assoc]

/-- The text of the token is a lexeme, before some text. -/
def IsLexeme (t : Token) : Prop := ∃ after, Lexeme t.kind t.text.toList after

lemma StandsIn.isLexeme {cs : List Char} (h : t.StandsIn cs) : t.IsLexeme := by
  obtain ⟨before, text, after, -, ht, hlexeme, -⟩ := h
  refine ⟨after, ?_⟩
  rw [ht]
  simpa [ofChars] using hlexeme

end Token

/-! ## What follows a lexeme -/

/-- A lexeme stays one before another text, unless it is an atom that runs on into that. -/
lemma Lexeme.before {kind : Token.Kind} {text after rest : List Char} (h : Lexeme kind text after)
    (hends : kind = .atom → EndsAtom rest) : Lexeme kind text rest := by
  cases h with
  | opening => exact .opening
  | closing => exact .closing
  | atom isAtom _ => exact .atom isAtom fun _ => hends rfl

/-- No atom runs on into a parenthesis. -/
lemma Lexeme.endsAtom {kind : Token.Kind} {text after : List Char} (h : Lexeme kind text after)
    (hkind : kind ≠ .atom) (rest : List Char) : EndsAtom (text ++ rest) := by
  cases h with
  | opening | closing => exact endsAtom_cons (by decide)
  | atom => exact absurd rfl hkind

/-- No atom runs on into separators. -/
lemma endsAtom_separators {blanks rest : List Char} (blank : ∀ c ∈ blanks, isSeparator c)
    (hrest : blanks = [] → EndsAtom rest) : EndsAtom (blanks ++ rest) := by
  cases blanks with
  | nil => exact hrest rfl
  | cons c blanks =>
    refine endsAtom_cons ?_
    rw [isDelimiter, blank c List.mem_cons_self]
    rfl

/-- Separators before a text add no tokens. -/
lemma Tiling.separators {offset : Nat} {blanks rest : List Char} {ts : List Token}
    (blank : ∀ c ∈ blanks, isSeparator c) (h : Tiling (offset + byteLength blanks) rest ts) :
    Tiling offset (blanks ++ rest) ts := by
  induction blanks generalizing offset with
  | nil => exact h
  | cons c blanks ih =>
    rw [List.forall_mem_cons] at blank
    refine .separator blank.1 (ih blank.2 ?_)
    rwa [Nat.add_assoc, ← byteLength_cons]

/-! ## Scanning what was joined -/

/-- The text, wherever it stands, is tiled by tokens of the same kinds and texts. -/
def Rescans (cs : List Char) (ts : List Token) : Prop :=
  ∀ offset, ∃ us, Tiling offset cs us ∧ us.map Token.content = ts.map Token.content

namespace Rescans

variable {gap : Token → Token → String} {t : Token} {ts : List Token} {rest : List Char}

lemma nil : Rescans [] [] := fun _ => ⟨[], .done, rfl⟩

lemma separators {blanks : List Char} (blank : ∀ c ∈ blanks, isSeparator c)
    (h : Rescans rest ts) : Rescans (blanks ++ rest) ts := by
  intro offset
  obtain ⟨us, htiling, hcontent⟩ := h (offset + byteLength blanks)
  exact ⟨us, htiling.separators blank, hcontent⟩

lemma token (ht : t.IsLexeme) (hends : t.kind = .atom → EndsAtom rest) (h : Rescans rest ts) :
    Rescans (t.text.toList ++ rest) (t :: ts) := by
  intro offset
  obtain ⟨after, hlexeme⟩ := ht
  obtain ⟨us, htiling, hcontent⟩ := h (offset + byteLength t.text.toList)
  refine ⟨.ofChars offset t.kind t.text.toList :: us, .token (hlexeme.before hends) htiling, ?_⟩
  rw [List.map_cons, List.map_cons, hcontent]
  simp [Token.content, Token.ofChars]

/-- An atom ends before what comes after it. -/
lemma endsAtom_joinedAfter (hgap : Token.Separates gap) (hkind : t.kind = .atom)
    (hts : ∀ u ∈ ts, u.IsLexeme) : EndsAtom (Token.joinedAfter gap t ts).toList := by
  cases ts with
  | nil => exact endsAtom_nil
  | cons u ts =>
    rw [Token.joinedAfter, String.toList_append, String.toList_append]
    refine endsAtom_separators (hgap.blank t u) fun hempty => ?_
    -- without anything between them, the second token is a parenthesis
    have hparen : u.kind ≠ .atom := by
      intro hu
      exact hgap.apart t u hkind hu (String.toList_eq_nil_iff.mp hempty)
    obtain ⟨after, hlexeme⟩ := hts u List.mem_cons_self
    exact hlexeme.endsAtom hparen _

lemma joinedAfter (hgap : Token.Separates gap) (hts : ∀ u ∈ ts, u.IsLexeme) :
    Rescans (Token.joinedAfter gap t ts).toList ts := by
  induction ts generalizing t with
  | nil => exact nil
  | cons u ts ih =>
    rw [List.forall_mem_cons] at hts
    rw [Token.joinedAfter, String.toList_append, String.toList_append]
    exact .separators (hgap.blank t u)
      (.token hts.1 (fun hu => endsAtom_joinedAfter hgap hu hts.2) (ih hts.2))

/-- Lexemes with separators between them are scanned as they are, if there is one at least between
two atoms. -/
theorem joined (hgap : Token.Separates gap) (hts : ∀ u ∈ ts, u.IsLexeme) :
    Rescans (Token.joined gap ts).toList ts := by
  cases ts with
  | nil => exact nil
  | cons t ts =>
    rw [List.forall_mem_cons] at hts
    rw [Token.joined, String.toList_append]
    exact .token hts.1 (fun ht => endsAtom_joinedAfter hgap ht hts.2) (joinedAfter hgap hts.2)

end Rescans

/-- The tokens of a source, with separators between them, are scanned as tokens of the same kinds
and texts. -/
theorem tokenize_joined {gap : Token → Token → String} {source : String} {ts : List Token}
    (hgap : Token.Separates gap) (h : tokenize source = .ok ts)
    (hsize : (Token.joined gap ts).utf8ByteSize < Span.limit) :
    ∃ us, tokenize (Token.joined gap ts) = .ok us ∧
      us.map Token.content = ts.map Token.content := by
  have hstands := (tokenize_eq_ok_iff.mp h).2.standsIn rfl paired_nil
  obtain ⟨us, htiling, hcontent⟩ := Rescans.joined hgap (fun t ht => (hstands t ht).isLexeme) 0
  exact ⟨us, tokenize_eq_ok_iff.mpr ⟨hsize, htiling⟩, hcontent⟩

/-- The tokens of a source are written in a row, with one space between any two of them, or between
two atoms only.  Unless that is too long to be scanned at all, it has tokens again, and these are of
the same kinds and texts. -/
theorem tokenize_rejoined {source : String} {ts : List Token} (h : tokenize source = .ok ts) :
    ∀ text ∈ [" ".intercalate (ts.map Token.text), Token.joined Token.spaceBetweenAtoms ts],
      text.utf8ByteSize < Span.limit →
        ∃ us, tokenize text = .ok us ∧ us.map Token.content = ts.map Token.content := by
  intro text htext hsize
  simp only [List.mem_cons, List.not_mem_nil, or_false] at htext
  rcases htext with rfl | rfl
  · rw [← Token.joined_space] at hsize ⊢
    exact tokenize_joined Token.separates_space h hsize
  · exact tokenize_joined Token.separates_spaceBetweenAtoms h hsize

/-- In the source two atoms touch, because the first of them ends with a string; they are kept apart
when they are written again. -/
theorem tokenize_rejoined_touching :
    let ts : List Token := [.openingAt 0, .ofChars 1 .atom ['f'],
      .ofChars 4 .atom ['a', '"', 'λ', ' ', ')', '"'], .ofChars 11 .atom ['b'], .closingAt 12]
    tokenize "(f  a\"λ )\"b)" = .ok ts ∧
      (∃ us, tokenize "( f a\"λ )\" b )" = .ok us ∧ us.map Token.content = ts.map Token.content) ∧
      ∃ us, tokenize "(f a\"λ )\" b)" = .ok us ∧ us.map Token.content = ts.map Token.content := by
  intro ts
  have htokens : tokenize "(f  a\"λ )\"b)" = .ok ts := by cbv
  have hline : " ".intercalate (ts.map Token.text) = "( f a\"λ )\" b )" := by cbv
  have hjoined : Token.joined Token.spaceBetweenAtoms ts = "(f a\"λ )\" b)" := by cbv
  have hrejoined := tokenize_rejoined htokens
  rw [hline, hjoined] at hrejoined
  exact ⟨htokens, hrejoined _ List.mem_cons_self (by decide),
    hrejoined _ (List.mem_cons_of_mem _ List.mem_cons_self) (by decide)⟩

end SmallLisp
