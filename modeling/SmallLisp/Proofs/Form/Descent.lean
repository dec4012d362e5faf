import Mathlib
import SmallLisp.Form.Read

/-!
# Reading list by list

The reader goes over the tokens once and keeps the lists that are still open.  The other way to read
a list is to read its items one after the other, up to its closing parenthesis, and to read an item
that is a list in just the same way; then no list has to be kept, because each of them is being read
by a reading of its own (`readItems`, `readLists`).  The tokens behind an item come with the proof
that they are fewer, which is why this ends.

Both ways come to the same, errors included (`parseAll_eq_readLists`).  The run of the reader from
an open list is the reading of that list, followed by a run with the list added to the one around it
(`Reader.run_readItems`); an error inside of a list is an error of every list around it.
-/

namespace SmallLisp

/-! ## The recursion -/

/-- Tokens behind the first ones of `ts`. -/
abbrev TokensBehind (ts : List Token) := { rest : List Token // rest.length < ts.length }

/-- Reads on in a list that was opened at `opened` and has the items `items`, last first.  Gives the
list with the tokens behind it. -/
def readItems (opened : Span) (items : List Form) (ts : List Token) :
    Except FormError (Form × TokensBehind ts) :=
  match ts with
  | [] => .error (.unclosed opened)
  | t :: ts =>
    match t.kind with
    | .closing => .ok (Reader.close ⟨opened, items⟩ t.span, ⟨ts, Nat.lt_succ_self _⟩)
    | .atom => do
      let form ← Form.ofAtom t.text t.span
      let (list, rest) ← readItems opened (form :: items) ts
      return (list, ⟨rest.1, Nat.lt_succ_of_lt rest.2⟩)
    | .opening => do
      let (inner, behind) ← readItems t.span [] ts
      let (list, rest) ← readItems opened (inner :: items) behind.1
      return (list, ⟨rest.1, Nat.lt_succ_of_lt (Nat.lt_trans rest.2 behind.2)⟩)
termination_by ts.length
decreasing_by
  · exact Nat.lt_succ_self _
  · exact Nat.lt_succ_self _
  · exact Nat.lt_succ_of_lt behind.2

/-- Reads lists up to the last token. -/
def readLists (ts : List Token) : Except FormError (List Form) :=
  match ts with
  | [] => .ok []
  | t :: ts =>
    match t.kind with
    | .opening => do
      let (list, behind) ← readItems t.span [] ts
      let lists ← readLists behind.1
      return list :: lists
    | _ => .error (.unexpected t.text t.span)
termination_by ts.length
decreasing_by exact Nat.lt_succ_of_lt behind.2

namespace Reader

/-! ## Runs of the reader -/

/-- The forms after some more tokens. -/
def run (r : Reader) (ts : List Token) : Except FormError (List Form) := do
  (← ts.foldlM step r).finish

@[simp] lemma run_nil (r : Reader) : r.run [] = r.finish := rfl

lemma run_cons (r : Reader) (t : Token) (ts : List Token) :
    r.run (t :: ts) = (r.step t).bind fun r => r.run ts := by
  unfold run
  rw [List.foldlM_cons]
  cases r.step t <;> rfl

/-- The reader with one more complete form, which belongs to the innermost open list if there is
one. -/
def add (form : Form) (r : Reader) : Reader :=
  match r.pending with
  | [] => { r with done := form :: r.done }
  | list :: rest => { r with pending := { list with items := form :: list.items } :: rest }

variable {done : List Form} {opened : Span} {items : List Form} {outer : List OpenList}
  {t : Token} {ts : List Token}

lemma step_opening (r : Reader) (h : t.kind = .opening) :
    r.step t = .ok ⟨r.done, ⟨t.span, []⟩ :: r.pending⟩ := by
  simp only [step, h]

lemma step_closing (h : t.kind = .closing) :
    step ⟨done, ⟨opened, items⟩ :: outer⟩ t =
      .ok (add (close ⟨opened, items⟩ t.span) ⟨done, outer⟩) := by
  cases outer <;> simp only [step, h, add]

lemma step_atom (h : t.kind = .atom) :
    step ⟨done, ⟨opened, items⟩ :: outer⟩ t =
      (Form.ofAtom t.text t.span).map fun form => ⟨done, ⟨opened, form :: items⟩ :: outer⟩ := by
  simp only [step, h]
  cases Form.ofAtom t.text t.span <;> rfl

lemma step_stray (h : t.kind ≠ .opening) :
    step ⟨done, []⟩ t = .error (.unexpected t.text t.span) := by
  cases hkind : t.kind with
  | opening => exact absurd hkind h
  | closing | atom => simp only [step, hkind]

/-- From an open list on, the reader reads that list, and runs on with the list added to what is
around it. -/
theorem run_readItems (done : List Form) (outer : List OpenList) (opened : Span)
    (items : List Form) (ts : List Token) :
    run ⟨done, ⟨opened, items⟩ :: outer⟩ ts =
      (readItems opened items ts).bind fun p => (add p.1 ⟨done, outer⟩).run p.2.1 := by
  induction opened, items, ts using readItems.induct generalizing done outer with
  | case1 opened items =>
    rw [readItems]
    rfl
  | case2 opened items t ts h =>
    rw [run_cons, step_closing h, readItems]
    simp only [h]
    rfl
  | case3 opened items t ts h ih =>
    rw [run_cons, step_atom h, readItems]
    simp only [h]
    cases Form.ofAtom t.text t.span with
    | error e => rfl
    | ok form =>
      show run ⟨done, ⟨opened, form :: items⟩ :: outer⟩ ts = _
      rw [ih form]
      show _ = ((readItems opened (form :: items) ts).bind _).bind _
      cases readItems opened (form :: items) ts <;> rfl
  | case4 opened items t ts h ih ih' =>
    rw [run_cons, step_opening _ h, readItems]
    simp only [h]
    show run ⟨done, ⟨t.span, []⟩ :: ⟨opened, items⟩ :: outer⟩ ts = _
    rw [ih]
    cases readItems t.span [] ts with
    | error e => rfl
    | ok p =>
      obtain ⟨inner, behind⟩ := p
      show run ⟨done, ⟨opened, inner :: items⟩ :: outer⟩ behind.1 = _
      rw [ih' inner behind]
      show _ = ((readItems opened (inner :: items) behind.1).bind _).bind _
      cases readItems opened (inner :: items) behind.1 <;> rfl

/-- At the top level, the reader reads lists up to the last token. -/
theorem run_readLists (done : List Form) (ts : List Token) :
    run ⟨done, []⟩ ts = (readLists ts).map (done.reverse ++ ·) := by
  induction ts using readLists.induct generalizing done with
  | case1 =>
    rw [readLists]
    exact congrArg Except.ok (List.append_nil _).symm
  | case2 t ts h ih =>
    rw [run_cons, step_opening _ h, readLists]
    simp only [h]
    show run ⟨done, ⟨t.span, []⟩ :: []⟩ ts = _
    rw [run_readItems]
    cases readItems t.span [] ts with
    | error e => rfl
    | ok p =>
      obtain ⟨list, behind⟩ := p
      show run ⟨list :: done, []⟩ behind.1 = ((readLists behind.1).bind _).map _
      rw [ih behind]
      cases readLists behind.1 with
      | error e => rfl
      | ok lists =>
        show Except.ok ((list :: done).reverse ++ lists) = .ok (done.reverse ++ list :: lists)
        simp
  | case3 t ts h =>
    rw [run_cons, step_stray h, readLists]
    split
    · next hopening => exact absurd hopening h
    · rfl

end Reader

/-- Reading the tokens one by one, with the lists that are still open kept, comes to the same as
reading list by list. -/
theorem parseAll_eq_readLists (ts : List Token) :
    parseAll ts = if ts.isEmpty then .error .noForm else readLists ts := by
  have hrun : ts.foldlM Reader.step {} >>= Reader.finish = readLists ts := by
    have h := Reader.run_readLists [] ts
    rw [List.reverse_nil] at h
    cases hlists : readLists ts <;> rw [hlists] at h <;> exact h
  rw [← hrun]
  rfl

end SmallLisp
