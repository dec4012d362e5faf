import SmallLisp.Proofs.Form.Concatenation
import SmallLisp.Proofs.Interpreter.Reachable

/-!
# Sources in pieces

A source may be handed to an interpreter in pieces (`Interpreter.run_append`).  If it is run as a
whole, then the forms of the second piece stand behind the first one, and the literals among them
belong to the same source as those of the first piece.  So two things have to be seen: that moving
code has no effect other than on places in errors and in the code of closures, and that no two
literals are confused by it.  Both are in the likeness of the two runs (`Likeness.pieces`).
-/

namespace SmallLisp

/-! ## What differs between the runs -/

/-- An object that was there before the second piece: no literal of a later source than the one
numbered `n`, and of that one no literal behind the first `k` bytes. -/
def Identity.InFirst (n k : Nat) : Identity → Prop
  | literal source span => source < n ∨ source = n ∧ span.start < k
  | fresh _ => True

/-- The literals of the source numbered `n + 1` are those of the source numbered `n` that stand
behind its first `k` bytes. -/
inductive Identity.Moves (n k : Nat) : Identity → Identity → Prop
  | same {i : Identity} (h : i.InFirst n k) : Moves n k i i
  | moved (span : Span) : Moves n k (.literal (n + 1) span) (.literal n (span.later k))

namespace Identity.Moves

variable {n k : Nat} {i j i' j' : Identity}

lemma not_inFirst_source {span : Span} : ¬ (Identity.literal (n + 1) span).InFirst n k := by
  simp [InFirst]

lemma not_inFirst_moved {span : Span} : ¬ (Identity.literal n (span.later k)).InFirst n k := by
  simp [InFirst, Span.later, Span.map]

/-- No two literals are confused by moving some of them. -/
lemma unique (h : Moves n k i j) (h' : Moves n k i' j') : i = i' ↔ j = j' := by
  cases h with
  | same hi =>
    cases h' with
    | same => rfl
    | moved span =>
      have hne : ∀ i' : Identity, ¬ i'.InFirst n k → i ≠ i' := by
        rintro i' hi' rfl
        exact hi' hi
      simp only [hne _ not_inFirst_source, hne _ not_inFirst_moved]
  | moved span =>
    cases h' with
    | same hi' =>
      have hne : ∀ i : Identity, ¬ i.InFirst n k → i ≠ i' := by
        rintro i hi rfl
        exact hi hi'
      simp only [hne _ not_inFirst_source, hne _ not_inFirst_moved]
    | moved span' => simp [(Span.later_injective k).eq_iff]

end Identity.Moves

/-- The likeness of a run in pieces, where the second piece is a source of its own, with the run as
a whole, where it stands behind the first `k` bytes of the source numbered `n`. -/
def Likeness.pieces (n k : Nat) : Likeness where
  matching := {
    identity := Identity.Moves n k
    unique := Identity.Moves.unique
    fresh := fun _ => .same trivial
    text := fun _ => True
    append := fun _ _ => trivial }
  span a b := b = a ∨ b = a.later k
  env i j := j = i

namespace Likeness

lemma sound_pieces (n k : Nat) (config : Config) :
    (pieces n k).correspondence.Sound config config :=
  sound (.inl rfl) (fun _ => rfl) fun _ _ _ h => h

/-- Before the first piece is run, everything stays where it is. -/
lemma finer_pieces (n k : Nat) : (before n).Finer (pieces n k) where
  identity := by
    rintro i _ ⟨rfl, hi⟩
    refine .same ?_
    cases i with
    | literal source span => exact .inl hi
    | fresh => trivial
  text _ _ := trivial
  span _ _ h := .inl h.symm
  env _ _ h := h.symm

/-- The first piece stays where it is. -/
lemma codes_first {source : String} {fs : List Form} (h : read source = .ok fs) (n : Nat) :
    List.Forall₂ ((pieces n source.utf8ByteSize).Codes n n) fs fs := by
  refine Form.alike_self (fun _ => .inl rfl) fun text span hmem => ⟨trivial, .same (.inr ⟨rfl, ?_⟩)⟩
  obtain ⟨covered, hcovers, -⟩ := standsIn_of_read h _ hmem
  have hstop := hcovers.stop_le
  rw [byteLength_toList] at hstop
  exact Nat.lt_of_lt_of_le hcovers.start_lt_stop hstop

/-- The second piece stands behind the first one. -/
lemma codes_second (n k : Nat) (gs : List Form) :
    List.Forall₂ ((pieces n k).Codes (n + 1) n) gs (gs.map (Form.mapSpan (Span.later k))) :=
  Form.alike_mapSpan (fun _ => .inr rfl) fun _ span _ => ⟨trivial, .moved span⟩

/-- Results that are alike: values that match, or the same error, perhaps tied to another place. -/
inductive Results (L : Likeness) : Except Error Value → Except Error Value → Prop
  | ok {v v' : Value} (values : L.Values v v') : Results L (.ok v) (.ok v')
  | error {e e' : EvalError} (errors : e.Alike L.span e') :
      Results L (.error (.eval e)) (.error (.eval e'))

/-- Runs that end alike: the results are alike, and so are the states that they leave, in which the
same text is printed. -/
structure Ends (L : Likeness) (r r' : Except Error Value × Interpreter) : Prop where
  results : L.Results r.1 r'.1
  states : L.States r.2.state r'.2.state
  config : r'.2.config = r.2.config
  global : r'.2.global = r.2.global

end Likeness

/-! ## Running in pieces -/

/-- Evaluating forms in a row is evaluating the first of them and then the others. -/
lemma EvalM.sequence_append {α : Type} (f : α → EvalM Value) (last : Value) (as bs : List α) :
    sequence f last (as ++ bs) = sequence f last as >>= fun v => sequence f v bs := by
  induction as generalizing last with
  | nil => rfl
  | cons a as ih => simp only [List.cons_append, sequence, ih, bind_assoc]

/-- The value that is there before matters only if there are no members. -/
lemma EvalM.sequence_of_ne_nil {α : Type} (f : α → EvalM Value) {as : List α} (h : as ≠ [])
    (last last' : Value) : sequence f last as = sequence f last' as := by
  cases as with
  | nil => exact absurd rfl h
  | cons => rfl

namespace Interpreter

variable {it it₁ : Interpreter}

/-- What follows is not performed after a failure, and else in the state that was left. -/
lemma perform_bind (it : Interpreter) (m : EvalM Value) (f : Value → EvalM Value) :
    it.perform (m >>= f) = match it.perform m with
      | none => none
      | some (.error e, it₁) => some (.error e, it₁)
      | some (.ok v, it₁) => it₁.perform (f v) := by
  change it.perform (EvalM.bind m f) = _
  unfold perform EvalM.bind
  cases m it.state <;> rfl

/-- What is performed with outcomes that are alike ends alike. -/
lemma perform_alike {L : Likeness} {it' : Interpreter} {m m' : EvalM Value}
    (h : L.Outcomes (m it.state) (m' it'.state)) (hconfig : it'.config = it.config)
    (hglobal : it'.global = it.global) :
    Option.Rel L.Ends (it.perform m) (it'.perform m') := by
  unfold perform
  generalize m it.state = o, m' it'.state = o' at h
  cases h with
  | ok _ states values => exact .some ⟨.ok values, states, hconfig, hglobal⟩
  | error _ states errors => exact .some ⟨.error errors, states, hconfig, hglobal⟩
  | exhausted => exact .none

/-- A source that can be read is run as its forms are evaluated, with a source number of its own. -/
lemma run_of_read [Machine] {source : String} {fs : List Form} (h : read source = .ok fs)
    (it : Interpreter) (fuel : Nat) :
    it.run fuel source = (it.site it.global).2.perform
      (.sequence (SmallLisp.eval it.config fuel ⟨it.state.sources, it.global⟩) .nil fs) := by
  unfold run
  rw [h]
  rfl

/-- After the first piece, the second one is evaluated alike as a source of its own and as the rest
of the source. -/
lemma run_second [Machine] (reachable : it.Reachable) {fuel : Nat} {source source' : String}
    {fs gs : List Form} (h : read source = .ok fs) (h' : read source' = .ok gs) (hgs : gs ≠ [])
    {v : Value} (hrun : it.run fuel source = some (.ok v, it₁)) :
    Option.Rel (Likeness.pieces it.state.sources source.utf8ByteSize).Ends (it₁.run fuel source')
      (it₁.perform (.sequence (SmallLisp.eval it.config fuel ⟨it.state.sources, it.global⟩) v
        (gs.map (Form.mapSpan (Span.later source.utf8ByteSize))))) := by
  set n := it.state.sources
  set k := source.utf8ByteSize
  have hsound := Likeness.sound_pieces n k it.config
  have hstart : (Likeness.pieces n k).States it.state.newSource.2 it.state.newSource.2 := by
    obtain ⟨hobjects, hdepth, houtput, hstore⟩ :=
      (Likeness.finer_pieces n k).states reachable.states
    exact ⟨hobjects, hdepth, houtput, hstore⟩
  rw [run_of_read h] at hrun
  obtain ⟨s, rfl, hs⟩ := perform_eq_some hrun
  have hfirst := Likeness.sequence hsound fuel ⟨n, it.global⟩ ⟨n, it.global⟩ rfl
    (Likeness.codes_first h n) hstart
  have hstates := Likeness.states_of_outcomes hfirst hs
  have hsources : s.sources = n + 1 := by
    have hkeeps := (respected_sources.keeps it.config fuel).1
    have := respected_sources.toIsPreorder
    exact EvalM.Keeps.sequence (fun form _ => hkeeps ⟨n, it.global⟩ form) .nil _ _ hs
  rw [run_of_read h', EvalM.sequence_of_ne_nil _ (by simpa using hgs) v .nil]
  refine perform_alike ?_ rfl rfl
  have hsecond : (Likeness.pieces n k).States s.newSource.2 s :=
    ⟨hstates.objects, hstates.depth, hstates.output, hstates.store⟩
  have hcodes := hsources ▸ Likeness.codes_second n k gs
  exact Likeness.sequence hsound fuel ⟨s.sources, it.global⟩ ⟨n, it.global⟩ rfl hcodes hsecond

/-- Running a source in pieces is running it as a whole.  If the first piece fails, then the whole
fails with the same error and in the same state.  If the first piece has a value, then running the
second piece after it ends as running the whole does, up to the places in the second piece. -/
theorem run_append [Machine] (reachable : it.Reachable) (fuel : Nat) (source source' : String)
    (fs gs : List Form) (h : read source = .ok fs) (h' : read source' = .ok gs) (hgs : gs ≠ [])
    (hsize : (source ++ source').utf8ByteSize < Span.limit) :
    (it.run fuel source = none → it.run fuel (source ++ source') = none) ∧
    (∀ e it₁, it.run fuel source = some (.error e, it₁) →
      it.run fuel (source ++ source') = some (.error e, it₁)) ∧
    ∀ v it₁, it.run fuel source = some (.ok v, it₁) →
      Option.Rel (Likeness.pieces it.state.sources source.utf8ByteSize).Ends
        (it₁.run fuel source') (it.run fuel (source ++ source')) := by
  have hwhole := run_of_read (read_concat h h' hsize) it fuel
  rw [EvalM.sequence_append, perform_bind, ← run_of_read h it fuel] at hwhole
  refine ⟨fun hrun => ?_, fun e it₁ hrun => ?_, fun v it₁ hrun => ?_⟩
  · rw [hwhole, hrun]
  · rw [hwhole, hrun]
  · rw [hwhole, hrun]
    exact run_second reachable h h' hgs hrun

section

open scoped Machine

/-- In pieces, the two literals are at the same place of different sources. -/
theorem run_append_literals :
    let it := Interpreter.new {} (.buffer "")
    let source := "(define x \"a\")"
    let source' := "(define y \"b\")"
    it.Reachable ∧ (source ++ source').utf8ByteSize < Span.limit ∧
      read source = .ok [.list [.symbol "define" ⟨1, 7⟩, .symbol "x" ⟨8, 9⟩, .str "a" ⟨10, 13⟩]
        ⟨0, 14⟩] ∧
      read source' = .ok [.list [.symbol "define" ⟨1, 7⟩, .symbol "y" ⟨8, 9⟩, .str "b" ⟨10, 13⟩]
        ⟨0, 14⟩] ∧
      ∃ v it₁, it.run 2 source = some (.ok v, it₁) ∧
        Option.Rel (Likeness.pieces 0 14).Ends (it₁.run 2 source')
          (it.run 2 (source ++ source')) := by
  intro it source source'
  have hreachable : it.Reachable := .new {} (.buffer "")
  have hsize : (source ++ source').utf8ByteSize < Span.limit := by decide
  have hread : read source = .ok [.list [.symbol "define" ⟨1, 7⟩, .symbol "x" ⟨8, 9⟩,
      .str "a" ⟨10, 13⟩] ⟨0, 14⟩] := by
    cbv
  have hread' : read source' = .ok [.list [.symbol "define" ⟨1, 7⟩, .symbol "y" ⟨8, 9⟩,
      .str "b" ⟨10, 13⟩] ⟨0, 14⟩] := by
    cbv
  have hvalue : (it.run 2 source).map (·.1.toBool) = some true := by decide +kernel
  obtain ⟨⟨result, it₁⟩, hrun, hok⟩ := Option.map_eq_some_iff.mp hvalue
  cases result with
  | error => cases hok
  | ok v =>
    exact ⟨hreachable, hsize, hread, hread', v, it₁, hrun,
      (run_append hreachable 2 source source' _ _ hread hread' (by simp) hsize).2.2 v it₁ hrun⟩

end

end Interpreter

end SmallLisp
