import SmallLisp.Proofs.Form.Places
import SmallLisp.Proofs.Form.Shift

/-!
# Reading a concatenation

A source that can be read may be followed by any other one, with nothing between the two.  The whole
is then read as the second source is, with all places behind the first one and with the forms of the
first one in front (`read_behind`).  Errors are no exception: it is the second source that decides
whether the whole can be read, and why not.

Scanning and reading are folds.  After a source that can be read both are at rest: the scanner is
between atoms, because the last token is a closing parenthesis, and no list is open.  From there on
they do what they do from the beginning; what they have collected does not matter for that, and
where they stand is added to all places (`Scan.step_behind`, `Reader.step_behind`).
-/

namespace SmallLisp

/-! ## Errors elsewhere -/

/-- The same error at another place. -/
def FormError.mapSpan (f : Span → Span) : FormError → FormError
  | noForm => noForm
  | unexpected text span => unexpected text (f span)
  | unclosed span => unclosed (f span)
  | trailing text span => trailing text (f span)
  | outOfRange text span => outOfRange text (f span)

/-- The same error at another place; the size of a source is no place. -/
def ScanError.mapSpan (f : Span → Span) : ScanError → ScanError
  | unterminated span => unterminated (f span)
  | tooLarge bytes => tooLarge bytes

/-- The same error of reading at another place. -/
def Error.mapSpan (f : Span → Span) : Error → Error
  | scan e => scan (e.mapSpan f)
  | form e => form (e.mapSpan f)
  | eval e => eval e

/-- An atom stands for the same elsewhere, or is out of range there as well. -/
lemma Form.ofAtom_eq (f : Span → Span) (text : String) (span : Span) :
    ofAtom text (f span) = ((ofAtom text span).map (mapSpan f)).mapError (FormError.mapSpan f) := by
  cases h : ofAtom text span with
  | ok form => exact ofAtom_mapSpan h f
  | error e =>
    obtain rfl := error_of_ofAtom h
    unfold ofAtom at h ⊢
    simp only at h ⊢
    repeat' split at h
    all_goals cases h
    simp [*, Except.map, Except.mapError, FormError.mapSpan]

/-! ## The scanner behind other tokens -/

lemma Token.openingAt_add (offset n : Nat) :
    openingAt (offset + n) = (openingAt offset).move (· + n) := by
  simp [openingAt, move, Span.map, Nat.add_right_comm]

lemma Token.closingAt_add (offset n : Nat) :
    closingAt (offset + n) = (closingAt offset).move (· + n) := by
  simp [closingAt, move, Span.map, Nat.add_right_comm]

namespace Scan

/-- The same in the middle of the text, `n` bytes later. -/
def Mode.later (n : Nat) : Mode → Mode
  | blank => blank
  | word start seen => word (start + n) seen
  | quoted start quote seen => quoted (start + n) (quote + n) seen

/-- The scanner after the same characters, but with the tokens `ts` of `n` bytes before them. -/
def behind (ts : List Token) (n : Nat) (s : Scan) : Scan where
  tokens := s.tokens.map (Token.move (· + n)) ++ ts.reverse
  offset := s.offset + n
  mode := s.mode.later n

variable {ts : List Token} {n : Nat}

lemma flushed_behind (s : Scan) :
    (s.behind ts n).flushed = s.flushed.map (Token.move (· + n)) ++ ts.reverse := by
  obtain ⟨tokens, offset, mode⟩ := s
  cases mode <;> rfl

/-- What was scanned before does not matter for the next character. -/
lemma step_behind (s : Scan) (c : Char) : (s.behind ts n).step c = (s.step c).behind ts n := by
  have hflushed := @flushed_behind ts n s
  obtain ⟨tokens, offset, mode⟩ := s
  have hnext : offset + n + c.utf8Size = offset + c.utf8Size + n := by omega
  cases mode with
  | quoted start quote seen =>
    change step ⟨_, offset + n, .quoted (start + n) (quote + n) seen⟩ c = _
    simp only [step, hnext]
    split_ifs <;> rfl
  | blank =>
    change step ⟨_, offset + n, .blank⟩ c = _
    simp only [behind, Mode.later] at hflushed
    simp only [step, hnext, hflushed, Token.openingAt_add, Token.closingAt_add]
    split_ifs <;> rfl
  | word start seen =>
    change step ⟨_, offset + n, .word (start + n) seen⟩ c = _
    simp only [behind, Mode.later] at hflushed
    simp only [step, hnext, hflushed, Token.openingAt_add, Token.closingAt_add]
    split_ifs <;> rfl

/-- What was scanned before is in front of the tokens, and does not matter otherwise. -/
lemma finish_behind (s : Scan) :
    (s.behind ts n).finish =
      (s.finish.map fun us => ts ++ us.map (Token.move (· + n))).mapError
        (ScanError.mapSpan (Span.later n)) := by
  have hflushed := @flushed_behind ts n s
  unfold finish
  rw [hflushed]
  obtain ⟨tokens, offset, mode⟩ := s
  cases mode with
  | quoted start quote seen => rfl
  | blank | word start seen => simp [behind, Mode.later, Except.map, Except.mapError]

/-- After a text that does not end in an atom, the scanner is between atoms. -/
lemma foldl_step_of_scan {cs : List Char} (h : scan cs = .ok ts)
    (hlast : ∀ t ∈ ts.getLast?, t.kind ≠ .atom) :
    cs.foldl step {} = behind ts (byteLength cs) {} := by
  have hoffset : (cs.foldl step {}).offset = byteLength cs := follows_nil.foldl_step.offset
  unfold scan finish at h
  generalize cs.foldl step {} = s at h hoffset
  obtain ⟨tokens, offset, mode⟩ := s
  obtain rfl := hoffset
  cases mode with
  | quoted start quote seen => cases h
  | blank =>
    cases h
    simp [behind, flushed, Mode.later]
  | word start seen =>
    cases h
    exact absurd rfl (hlast (atom start (byteLength cs) seen) (by simp [flushed]))

end Scan

/-- A text behind one that does not end in an atom has its tokens as if it stood alone. -/
theorem scan_append {cs : List Char} {ts : List Token} (h : scan cs = .ok ts)
    (hlast : ∀ t ∈ ts.getLast?, t.kind ≠ .atom) (ds : List Char) :
    scan (cs ++ ds) =
      ((scan ds).map fun us => ts ++ us.map (Token.move (· + byteLength cs))).mapError
        (ScanError.mapSpan (Span.later (byteLength cs))) := by
  unfold scan
  rw [List.foldl_append, Scan.foldl_step_of_scan h hlast,
    List.foldl_hom (Scan.behind ts (byteLength cs)) Scan.step_behind, Scan.finish_behind]

/-! ## The reader behind other forms -/

/-- The same open list, `n` bytes later. -/
def OpenList.later (n : Nat) (list : OpenList) : OpenList :=
  ⟨list.span.later n, list.items.map (Form.mapSpan (Span.later n))⟩

namespace Reader

/-- The reader after the same tokens, but with the forms `fs` of `n` bytes before them. -/
def behind (fs : List Form) (n : Nat) (r : Reader) : Reader where
  done := r.done.map (Form.mapSpan (Span.later n)) ++ fs.reverse
  pending := r.pending.map (OpenList.later n)

variable {fs : List Form} {n : Nat}

lemma close_later (list : OpenList) (closing : Span) :
    close (list.later n) (closing.later n) = (close list closing).mapSpan (Span.later n) := by
  simp [close, OpenList.later, Form.mapSpan, Span.later, Span.cover_map (monotone_later n)]

/-- What was read before does not matter for the next token. -/
lemma step_behind (r : Reader) (t : Token) :
    (r.behind fs n).step (t.move (· + n)) =
      ((r.step t).map (behind fs n)).mapError (FormError.mapSpan (Span.later n)) := by
  obtain ⟨done, pending⟩ := r
  obtain ⟨kind, text, span⟩ := t
  cases kind with
  | opening => rfl
  | closing =>
    rcases pending with _ | ⟨list, _ | ⟨outer, rest⟩⟩
    · rfl
    · change Except.ok (mk (close (list.later n) (span.later n) :: _) []) = _
      rw [close_later]
      rfl
    · change Except.ok (mk _ (⟨_, close (list.later n) (span.later n) :: _⟩ :: _)) = _
      rw [close_later]
      rfl
  | atom =>
    rcases pending with _ | ⟨list, rest⟩
    · rfl
    · simp only [step, behind, Token.move, List.map_cons]
      rw [show span.map (· + n) = span.later n from rfl, Form.ofAtom_eq]
      cases Form.ofAtom text span <;> rfl

lemma foldlM_step_behind (r : Reader) (ts : List Token) :
    (ts.map (Token.move (· + n))).foldlM step (r.behind fs n) =
      ((ts.foldlM step r).map (behind fs n)).mapError (FormError.mapSpan (Span.later n)) := by
  induction ts generalizing r with
  | nil => rfl
  | cons t ts ih =>
    rw [List.map_cons, List.foldlM_cons, List.foldlM_cons, step_behind]
    cases r.step t with
    | error e => rfl
    | ok next => exact ih next

/-- What was read before is in front of the forms, and does not matter otherwise. -/
lemma finish_behind (r : Reader) :
    (r.behind fs n).finish =
      (r.finish.map fun gs => fs ++ gs.map (Form.mapSpan (Span.later n))).mapError
        (FormError.mapSpan (Span.later n)) := by
  obtain ⟨done, pending⟩ := r
  cases pending with
  | nil => simp [finish, behind, Except.map, Except.mapError]
  | cons list rest => rfl

/-- Tokens behind others are read as if they were the first ones. -/
lemma finish_foldlM_behind (ts : List Token) :
    ((ts.map (Token.move (· + n))).foldlM step (behind fs n {}) >>= finish) =
      ((ts.foldlM step {} >>= finish).map fun gs =>
        fs ++ gs.map (Form.mapSpan (Span.later n))).mapError
          (FormError.mapSpan (Span.later n)) := by
  rw [foldlM_step_behind]
  cases ts.foldlM step {} with
  | error e => rfl
  | ok r => exact finish_behind r

end Reader

/-! ## Two sources -/

/-- Reading is scanning and then reading the tokens, also if there are none. -/
lemma read_eq (source : String) :
    read source = (tokenize source).mapError .scan >>= fun ts =>
      (ts.foldlM Reader.step {} >>= Reader.finish).mapError .form := by
  unfold read
  cases tokenize source with
  | error e => rfl
  | ok ts =>
    cases ts with
    | nil => rfl
    | cons t ts => rfl

/-- The last token of forms that are all lists is a closing parenthesis. -/
lemma Spelling.kind_getLast {ts : List Token} {fs : List Form} (h : Spelling ts fs)
    (lists : ∀ form ∈ fs, form.isList) : ∀ t ∈ ts.getLast?, t.kind ≠ .atom := by
  induction h with
  | nil => simp
  | atom kind reads tail ih =>
    have hlist := lists _ List.mem_cons_self
    rw [Form.isList_of_ofAtom reads] at hlist
    cases hlist
  | @list o c inner ts items forms opening closing inside tail _ ih =>
    have hlast := ih fun form hform => lists form (List.mem_cons_of_mem _ hform)
    intro t ht
    rw [← List.cons_append, List.getLast?_append, List.getLast?_cons] at ht
    cases hts : ts.getLast? with
    | none =>
      rw [hts] at ht
      cases ht
      simp [closing]
    | some u =>
      rw [hts] at ht hlast
      cases ht
      exact hlast _ rfl

/-- Behind a source that can be read, another one is read as if it stood alone. -/
theorem read_behind {source : String} {fs : List Form} (h : read source = .ok fs)
    (source' : String) (hsize : (source ++ source').utf8ByteSize < Span.limit) :
    read (source ++ source') =
      ((read source').map fun gs =>
        fs ++ gs.map (Form.mapSpan (Span.later source.utf8ByteSize))).mapError
          (Error.mapSpan (Span.later source.utf8ByteSize)) := by
  obtain ⟨-, lists, ts, htiling, hspelling⟩ := read_eq_ok_iff.mp h
  have hsize' : source'.utf8ByteSize < Span.limit := by
    rw [String.utf8ByteSize_append] at hsize
    omega
  have hscan := scan_append (scan_eq_ok_iff.mpr htiling) (hspelling.kind_getLast lists)
    source'.toList
  have hstart : ts.foldlM Reader.step {} = .ok (Reader.behind fs source.utf8ByteSize {}) :=
    (hspelling.foldlM_step_top lists []).trans (by simp [Reader.behind])
  rw [read_eq, read_eq, tokenize, tokenize, if_pos hsize, if_pos hsize', String.toList_append,
    hscan, byteLength_toList]
  cases scan source'.toList with
  | error e => rfl
  | ok us =>
    have hrun : (ts ++ us.map (Token.move (· + source.utf8ByteSize))).foldlM Reader.step {} =
        (us.map (Token.move (· + source.utf8ByteSize))).foldlM Reader.step
          (Reader.behind fs source.utf8ByteSize {}) := by
      rw [List.foldlM_append, hstart]
      rfl
    change ((ts ++ us.map _).foldlM Reader.step {} >>= Reader.finish).mapError Error.form =
      (((us.foldlM Reader.step {} >>= Reader.finish).mapError Error.form).map _).mapError _
    rw [hrun, Reader.finish_foldlM_behind]
    cases us.foldlM Reader.step {} >>= Reader.finish <;> rfl

/-- Two sources one after the other are read as the forms of both, those of the second one behind
the first source. -/
theorem read_concat {source source' : String} {fs gs : List Form} (h : read source = .ok fs)
    (h' : read source' = .ok gs) (hsize : (source ++ source').utf8ByteSize < Span.limit) :
    read (source ++ source') =
      .ok (fs ++ gs.map (Form.mapSpan (Span.later source.utf8ByteSize))) := by
  rw [read_behind h source' hsize, h']
  rfl

/-- Reading distributes over concatenation, with no separator between the two sources: the forms of
the second one follow those of the first one, with all their places moved by its length.  If the
second source cannot be read, then the whole cannot, for the same reason at the moved place. -/
theorem read_append (source source' : String) (fs : List Form) (h : read source = .ok fs)
    (hsize : (source ++ source').utf8ByteSize < Span.limit) :
    (∀ gs, read source' = .ok gs → read (source ++ source') =
      .ok (fs ++ gs.map (Form.mapSpan (Span.later source.utf8ByteSize)))) ∧
    ∀ e, read source' = .error e →
      read (source ++ source') = .error (e.mapSpan (Span.later source.utf8ByteSize)) := by
  refine ⟨fun gs h' => read_concat h h' hsize, fun e h' => ?_⟩
  rw [read_behind h source' hsize, h']
  rfl

/-- Neither a list nor a string that is never closed is affected by the list right before it. -/
theorem read_append_touching :
    read "(é)(b)" = .ok [.list [.symbol "é" ⟨1, 3⟩] ⟨0, 4⟩, .list [.symbol "b" ⟨5, 6⟩] ⟨4, 7⟩] ∧
      read "(é)(b \"" = .error (.scan (.unterminated ⟨7, 8⟩)) := by
  have hread : read "(é)" = .ok [.list [.symbol "é" ⟨1, 3⟩] ⟨0, 4⟩] := by cbv
  constructor
  · exact (read_append "(é)" "(b)" _ hread (by decide)).1 [.list [.symbol "b" ⟨1, 2⟩] ⟨0, 3⟩]
      (by cbv)
  · exact (read_append "(é)" "(b \"" _ hread (by decide)).2 (.scan (.unterminated ⟨3, 4⟩))
      (by cbv)

end SmallLisp
