import Mathlib
import SmallLisp.Proofs.Token.Tiling

/-!
# The tokens of a source partition it

What the scanner promises to everything after it: no character is lost, duplicated or given to the
wrong token.  `Partition` says so in terms of the source and the spans, without the scanner, and
`tokenize_partition` shows it for every source that has tokens.

All of it is read off a tiling.  Where a string begins and ends is a matter of counting quotes: the
lexemes have two quotes or none, so that every one of them stands after an even number of quotes
(`Tiling.placed`), and a delimiter inside a lexeme stands after an odd number.
-/

namespace SmallLisp

/-! ## Counting quotes -/

/-- Whether every quote of a prefix is closed, so that the next character is in no string. -/
def Paired (before : List Char) : Prop := before.count '"' % 2 = 0

lemma paired_nil : Paired [] := rfl

lemma Paired.append {before text : List Char} (hb : Paired before) (ht : Paired text) :
    Paired (before ++ text) := by
  unfold Paired at *
  rw [List.count_append]
  omega

lemma Paired.of_append {before text : List Char} (h : Paired (text ++ before))
    (ht : Paired text) : Paired before := by
  unfold Paired at *
  rw [List.count_append] at h
  omega

lemma paired_of_not_mem {text : List Char} (h : '"' ∉ text) : Paired text := by
  unfold Paired
  rw [List.count_eq_zero.mpr h]

lemma IsAtom.paired {text : List Char} (h : IsAtom text) : Paired text := by
  cases h with
  | word nonempty plain => exact paired_of_not_mem (not_mem_quote_of_isPlain plain)
  | @quoted lead body plain unquoted =>
    have hlead := List.count_eq_zero.mpr (not_mem_quote_of_isPlain plain)
    have hbody := List.count_eq_zero.mpr unquoted
    simp [Paired, hlead, hbody]

lemma Lexeme.paired {kind : Token.Kind} {text rest : List Char} (h : Lexeme kind text rest) :
    Paired text := by
  cases h with
  | opening | closing => rfl
  | atom isAtom => exact isAtom.paired

lemma paired_of_isSeparator {c : Char} (h : isSeparator c) : Paired [c] := by
  apply paired_of_not_mem
  intro hm
  rw [List.mem_singleton] at hm
  subst hm
  revert h
  decide

/-- A character of two texts in a row is one of the first text or one of the second. -/
lemma cut_append {xs ys before after : List Char} {c : Char}
    (h : xs ++ ys = before ++ c :: after) :
    (∃ inside, xs = before ++ c :: inside) ∨
      ∃ beyond, before = xs ++ beyond ∧ ys = beyond ++ c :: after := by
  rcases List.append_eq_append_iff.mp h with ⟨as, hbefore, hys⟩ | ⟨bs, hxs, hrest⟩
  · exact .inr ⟨as, hbefore, hys⟩
  · cases bs with
    | nil => exact .inr ⟨[], by simpa using hxs.symm, by simpa using hrest.symm⟩
    | cons d bs =>
      obtain ⟨rfl, -⟩ := List.cons.inj hrest
      exact .inl ⟨bs, hxs⟩

/-- A delimiter that is part of an atom is in its string. -/
lemma IsAtom.not_paired {text before after : List Char} {c : Char} (h : IsAtom text)
    (htext : text = before ++ c :: after) (hc : isDelimiter c) : ¬ Paired before := by
  have hplain : isPlain c = false := isPlain_eq_false_of_isDelimiter hc
  cases h with
  | word nonempty plain =>
    have hword := plain c (by simp [htext])
    simp [hplain] at hword
  | @quoted lead body plain unquoted =>
    -- The delimiter is a plain character, a quote or between the quotes.
    rcases cut_append htext with ⟨inside, hlead⟩ | ⟨beyond, rfl, hquoted⟩
    · have hword := plain c (by simp [hlead])
      simp [hplain] at hword
    · cases beyond with
      | nil =>
        obtain ⟨rfl, -⟩ := List.cons.inj hquoted
        cases hc
      | cons d beyond =>
        obtain ⟨rfl, hbody⟩ := List.cons.inj hquoted
        rcases cut_append hbody with ⟨inside, rfl⟩ | ⟨last, -, hlast⟩
        · have hlead := List.count_eq_zero.mpr (not_mem_quote_of_isPlain plain)
          have hbeyond : beyond.count '"' = 0 :=
            List.count_eq_zero.mpr fun h => unquoted (by simp [h])
          simp [Paired, hlead, hbeyond]
        · have hmem : c ∈ ['"'] := by simp [hlast]
          rw [List.mem_singleton] at hmem
          subst hmem
          cases hc

/-! ## Where the tokens stand -/

/-- The token is a lexeme of the text at the place that its span says, outside the strings of the
text before it. -/
def Token.StandsIn (t : Token) (cs : List Char) : Prop :=
  ∃ before text after, cs = before ++ (text ++ after) ∧
    t = .ofChars (byteLength before) t.kind text ∧ Lexeme t.kind text after ∧ Paired before

/-- Each token of a tiling of the end of a text stands in the text. -/
theorem Tiling.standsIn {offset : Nat} {before cs : List Char} {ts : List Token}
    (h : Tiling offset cs ts) (hoffset : offset = byteLength before) (hpaired : Paired before) :
    ∀ t ∈ ts, t.StandsIn (before ++ cs) := by
  induction h generalizing before with
  | done => simp
  | @separator offset c rest ts blank tail ih =>
    have hnext : offset + c.utf8Size = byteLength (before ++ [c]) := by simp [hoffset]
    simpa using ih hnext (hpaired.append (paired_of_isSeparator blank))
  | @token offset kind text rest ts lexeme tail ih =>
    intro t ht
    rcases List.mem_cons.mp ht with rfl | ht
    · exact ⟨before, text, rest, rfl, by rw [← hoffset]; rfl, lexeme, hpaired⟩
    · have hnext : offset + byteLength text = byteLength (before ++ text) := by simp [hoffset]
      simpa using ih hnext (hpaired.append lexeme.paired) t ht

/-- The tokens of a tiling stand one after the other, none before the tiled text. -/
theorem Tiling.ordered {offset : Nat} {cs : List Char} {ts : List Token} (h : Tiling offset cs ts) :
    ts.Pairwise (fun s t => s.span.stop ≤ t.span.start) ∧ ∀ t ∈ ts, offset ≤ t.span.start := by
  induction h with
  | done => simp
  | separator blank tail ih =>
    exact ⟨ih.1, fun t ht => Nat.le_trans (Nat.le_add_right _ _) (ih.2 t ht)⟩
  | token lexeme tail ih =>
    refine ⟨List.pairwise_cons.mpr ⟨ih.2, ih.1⟩, ?_⟩
    intro t ht
    rcases List.mem_cons.mp ht with rfl | ht
    · exact Nat.le_refl _
    · exact Nat.le_trans (Nat.le_add_right _ _) (ih.2 t ht)

/-- A character of a tiled text is a separator or lies in the span of a token. -/
theorem Tiling.covers {offset : Nat} {cs before after : List Char} {c : Char} {ts : List Token}
    (h : Tiling offset cs ts) (hcs : cs = before ++ c :: after) :
    isSeparator c ∨ ∃ t ∈ ts, t.span.start ≤ offset + byteLength before ∧
      offset + byteLength before < t.span.stop := by
  induction h generalizing before with
  | done => simp at hcs
  | separator blank tail ih =>
    cases before with
    | nil =>
      obtain ⟨rfl, -⟩ := List.cons.inj hcs
      exact .inl blank
    | cons d before =>
      obtain ⟨rfl, hrest⟩ := List.cons.inj hcs
      simpa [Nat.add_assoc] using ih hrest
  | @token offset kind text rest ts lexeme tail ih =>
    rcases cut_append hcs with ⟨inside, htext⟩ | ⟨beyond, rfl, hrest⟩
    · refine .inr ⟨_, List.mem_cons_self, Nat.le_add_right _ _, ?_⟩
      have hsize := c.utf8Size_pos
      simp only [Token.ofChars, htext, byteLength_append, byteLength_cons]
      omega
    · rcases ih hrest with hblank | ⟨t, ht, hspan⟩
      · exact .inl hblank
      · exact .inr ⟨t, List.mem_cons_of_mem _ ht, by simpa [Nat.add_assoc] using hspan⟩

lemma lexeme_opening_iff {text rest : List Char} : Lexeme .opening text rest ↔ text = ['('] := by
  constructor
  · rintro ⟨⟩
    rfl
  · rintro rfl
    exact .opening

lemma lexeme_closing_iff {text rest : List Char} : Lexeme .closing text rest ↔ text = [')'] := by
  constructor
  · rintro ⟨⟩
    rfl
  · rintro rfl
    exact .closing

lemma isDelimiter_of_lexeme {kind : Token.Kind} {c : Char} {rest : List Char}
    (h : Lexeme kind [c] rest) (hkind : kind ≠ .atom) : isDelimiter c ∧ isSeparator c = false := by
  cases h with
  | opening | closing => decide
  | atom => exact absurd rfl hkind

/-- A parenthesis outside the strings of a tiled text is a token. -/
theorem Tiling.mem_of_paired {offset : Nat} {cs before after : List Char} {c : Char}
    {kind : Token.Kind} {ts : List Token} (h : Tiling offset cs ts)
    (hcs : cs = before ++ c :: after) (hpaired : Paired before)
    (hc : ∀ {text rest}, Lexeme kind text rest ↔ text = [c]) (hkind : kind ≠ .atom) :
    .ofChars (offset + byteLength before) kind [c] ∈ ts := by
  have hlexeme : Lexeme kind [c] [] := hc.mpr rfl
  obtain ⟨hdelimiter, hblank⟩ := isDelimiter_of_lexeme hlexeme hkind
  induction h generalizing before with
  | done => simp at hcs
  | separator blank tail ih =>
    cases before with
    | nil =>
      obtain ⟨rfl, -⟩ := List.cons.inj hcs
      simp [hblank] at blank
    | cons d before =>
      obtain ⟨rfl, hrest⟩ := List.cons.inj hcs
      have hbefore : Paired before := Paired.of_append hpaired (paired_of_isSeparator blank)
      simpa [Nat.add_assoc] using ih hrest hbefore
  | token lexeme tail ih =>
    rcases cut_append hcs with ⟨inside, htext⟩ | ⟨beyond, rfl, hrest⟩
    · cases lexeme with
      | opening | closing =>
        cases before with
        | nil =>
          obtain ⟨rfl, -⟩ := List.cons.inj htext
          cases hlexeme
          · exact List.mem_cons_self
          · exact absurd rfl hkind
        | cons => simp at htext
      | atom isAtom => exact absurd hpaired (isAtom.not_paired htext hdelimiter)
    · have hmem := ih hrest (hpaired.of_append lexeme.paired)
      rw [byteLength_append, ← Nat.add_assoc]
      exact List.mem_cons_of_mem _ hmem

/-- The tokens of a kind of parenthesis are the parentheses outside strings. -/
theorem Tiling.mem_kind_iff {cs : List Char} {c : Char} {kind : Token.Kind} {t : Token}
    {ts : List Token} (h : Tiling 0 cs ts) (hc : ∀ {text rest}, Lexeme kind text rest ↔ text = [c])
    (hkind : kind ≠ .atom) :
    (t ∈ ts ∧ t.kind = kind) ↔
      ∃ before after, cs = before ++ c :: after ∧ Paired before ∧
        t = .ofChars (byteLength before) kind [c] := by
  constructor
  · rintro ⟨ht, rfl⟩
    obtain ⟨before, text, after, hcs, ht, hlexeme, hpaired⟩ := h.standsIn rfl paired_nil t ht
    obtain rfl := hc.mp hlexeme
    exact ⟨before, after, hcs, hpaired, ht⟩
  · rintro ⟨before, after, hcs, hpaired, rfl⟩
    have hmem := h.mem_of_paired hcs hpaired hc hkind
    rw [Nat.zero_add] at hmem
    exact ⟨hmem, rfl⟩

/-! ## The partition -/

/-- The tokens cut the source into lexemes and the separators between them. -/
structure Partition (source : String) (tokens : List Token) : Prop where
  /-- No token is empty. -/
  nonempty : ∀ t ∈ tokens, t.span.start < t.span.stop
  /-- Each token begins after the ones before it, where the last of them ends or later. -/
  ordered : tokens.Pairwise fun s t =>
    s.span.start < t.span.start ∧ s.span.stop ≤ t.span.start
  /-- The text of a token is what its span covers. -/
  sliced : ∀ t ∈ tokens, t.span.slice? source = some t.text
  /-- A character that no span covers is a separator. -/
  covered : ∀ before c after, source.toList = before ++ c :: after →
    (∀ t ∈ tokens, ¬ (t.span.start ≤ byteLength before ∧ byteLength before < t.span.stop)) →
    isSeparator c
  /-- The opening parentheses outside strings, one character each. -/
  opening : ∀ t, t ∈ tokens ∧ t.kind = .opening ↔
    ∃ before after, source.toList = before ++ '(' :: after ∧ Paired before ∧
      t = .openingAt (byteLength before)
  /-- The closing parentheses outside strings, one character each. -/
  closing : ∀ t, t ∈ tokens ∧ t.kind = .closing ↔
    ∃ before after, source.toList = before ++ ')' :: after ∧ Paired before ∧
      t = .closingAt (byteLength before)
  /-- An atom is plain characters, possibly with one string at their end. -/
  atom : ∀ t ∈ tokens, t.kind = .atom → IsAtom t.text.toList
  /-- An atom without a string is as long as it can be. -/
  longest : ∀ t ∈ tokens, t.kind = .atom → '"' ∉ t.text.toList →
    ∃ before after, source.toList = before ++ (t.text.toList ++ after) ∧
      t.span.start = byteLength before ∧ EndsAtom after

lemma Token.StandsIn.nonempty {t : Token} {cs : List Char} (h : t.StandsIn cs) :
    t.span.start < t.span.stop := by
  obtain ⟨before, text, after, -, ht, hlexeme, -⟩ := h
  have hpos := byteLength_pos hlexeme.ne_nil
  rw [ht]
  exact Nat.lt_add_of_pos_right hpos

lemma Token.StandsIn.sliced {t : Token} {source : String} (h : t.StandsIn source.toList) :
    t.span.slice? source = some t.text := by
  obtain ⟨before, text, after, hsource, ht, -⟩ := h
  rw [ht]
  exact Span.slice?_append hsource

lemma Token.StandsIn.atom {t : Token} {cs : List Char} (h : t.StandsIn cs)
    (hkind : t.kind = .atom) :
    IsAtom t.text.toList ∧ ('"' ∉ t.text.toList → ∃ before after,
      cs = before ++ (t.text.toList ++ after) ∧ t.span.start = byteLength before ∧
        EndsAtom after) := by
  obtain ⟨before, text, after, hcs, ht, hlexeme, -⟩ := h
  have htext : t.text.toList = text := by
    rw [ht]
    exact String.toList_ofList
  have hstart : t.span.start = byteLength before := by rw [ht]; rfl
  rw [hkind] at hlexeme
  rw [htext]
  cases hlexeme with
  | atom isAtom ends => exact ⟨isAtom, fun h => ⟨before, after, hcs, hstart, ends h⟩⟩

/-- The tokens of a source partition it. -/
theorem Tiling.partition {source : String} {tokens : List Token}
    (h : Tiling 0 source.toList tokens) : Partition source tokens where
  nonempty t ht := (h.standsIn rfl paired_nil t ht).nonempty
  ordered := by
    refine h.ordered.1.imp_of_mem ?_
    intro s t hs _ hst
    exact ⟨Nat.lt_of_lt_of_le (h.standsIn rfl paired_nil s hs).nonempty hst, hst⟩
  sliced t ht := (h.standsIn rfl paired_nil t ht).sliced
  covered before c after hsource huncovered := by
    rcases h.covers hsource with hblank | ⟨t, ht, hspan⟩
    · exact hblank
    · rw [Nat.zero_add] at hspan
      exact absurd hspan (huncovered t ht)
  opening _ := h.mem_kind_iff lexeme_opening_iff (by decide)
  closing _ := h.mem_kind_iff lexeme_closing_iff (by decide)
  atom t ht hkind := ((h.standsIn rfl paired_nil t ht).atom hkind).1
  longest t ht hkind := ((h.standsIn rfl paired_nil t ht).atom hkind).2

/-- Whenever a source has tokens at all, they partition it. -/
theorem tokenize_partition (source : String) (tokens : List Token)
    (h : tokenize source = .ok tokens) : Partition source tokens :=
  (tokenize_eq_ok_iff.mp h).2.partition

/-- A string that begins inside an atom, holds a parenthesis and touches the next atom. -/
theorem tokenize_partition_string :
    tokenize "(f a\"λ)\"b)" = .ok [.openingAt 0, .ofChars 1 .atom ['f'],
      .ofChars 3 .atom ['a', '"', 'λ', ')', '"'], .ofChars 9 .atom ['b'], .closingAt 10] ∧
    Partition "(f a\"λ)\"b)" [.openingAt 0, .ofChars 1 .atom ['f'],
      .ofChars 3 .atom ['a', '"', 'λ', ')', '"'], .ofChars 9 .atom ['b'], .closingAt 10] := by
  have htokens : tokenize "(f a\"λ)\"b)" = .ok [.openingAt 0, .ofChars 1 .atom ['f'],
      .ofChars 3 .atom ['a', '"', 'λ', ')', '"'], .ofChars 9 .atom ['b'], .closingAt 10] := by
    cbv
  exact ⟨htokens, tokenize_partition _ _ htokens⟩

end SmallLisp
