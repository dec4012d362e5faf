import SmallLisp.Proofs.Evaluation.Likeness
import SmallLisp.Proofs.Value.Mirror

/-!
# Printed data can be read back

A list is printed with its strings between quotes, but nothing is escaped.  It can be read back
only because there are no quotes in strings: a literal ends at the first one, and no procedure makes
a string out of anything but strings.  That is a likeness of an evaluation with itself
(`Likeness.unquoted`).

What is read is then the mirror of the value (`Value.mirror`), because every part of it is written
as an atom or a list that stands for that part.
-/

namespace SmallLisp

/-! ## Strings without quotes -/

/-- Nothing differs, and strings have no quotes in them. -/
def Likeness.unquoted : Likeness where
  matching := .self (fun _ => True) (fun _ => trivial) ('"' ∉ ·.toList)
    fun hs ht => by simp [hs, ht]
  span := Eq
  env := Eq

lemma Likeness.sound_unquoted (config : Config) :
    Likeness.unquoted.correspondence.Sound config config :=
  Likeness.sound rfl (fun _ => rfl) (fun _ _ _ h => h.symm)

/-- No string literal of a source has quotes in it. -/
lemma not_mem_quote_of_read {source : String} {fs : List Form} (h : read source = .ok fs)
    {text : String} {span : Span} (hmem : .str text span ∈ Form.nodesAll fs) :
    '"' ∉ text.toList := by
  obtain ⟨-, -, ts, htiling, hspelling⟩ := read_eq_ok_iff.mp h
  exact Form.not_mem_quote_of_readable
    (readable_of_spelling htiling hspelling _ (Form.mem_leavesAll hmem rfl))

/-- A source makes no strings with quotes. -/
lemma Value.unquoted_of_ofSource [Machine] {fuel : Nat} {config : Config} {source : String}
    {r : Run} {v : Value} (h : Run.ofSource fuel config source = some r) (hv : r.result = .ok v) :
    v.Unquoted := by
  rw [Run.ofSource_eq] at h
  cases hread : read source with
  | error e =>
    rw [hread] at h
    cases h
    cases hv
  | ok forms =>
    rw [hread] at h
    have hforms : List.Forall₂ (Likeness.unquoted.Codes 0 0) forms forms :=
      Form.alike_self (fun _ => rfl) fun text span hmem =>
        ⟨not_mem_quote_of_read hread hmem, rfl, trivial⟩
    have hrun := Likeness.sequence (Likeness.sound_unquoted config) fuel Run.site Run.site rfl
      hforms Likeness.states_start
    rcases Run.ofOutcome_eq_some h with ⟨value, s, hvalue, rfl⟩ | ⟨e, s, -, rfl⟩
    · cases hv
      change EvalM.sequence (eval config fuel Run.site) .nil forms Run.start = .ok v s at hvalue
      rw [hvalue] at hrun
      cases hrun with
      | ok _ _ hmatches =>
        intro id text hmem
        exact text_of_matches (.cons hmatches .nil) (by simpa [partsAll] using hmem)
    · cases hv

/-! ## Reading results -/

/-- If a source has a list of data as its value, then no string in it has a quote, and what is
printed of it is read as its mirror: integers and doubles come back as they were, strings with the
same text, and what has a name comes back as that name. -/
theorem Run.read_printed [Machine] (fuel : Nat) (config : Config) (source : String) (r : Run)
    (v : Value)
    (h : Run.ofSource fuel config source = some r) (hv : r.result = .ok v) (hlist : v.kind = .list)
    (hdata : v.IsData) (hsize : v.text.utf8ByteSize < Span.limit) :
    v.Unquoted ∧ ∃ form, read v.text = .ok [form] ∧ form.bare = v.mirror := by
  have hunquoted := Value.unquoted_of_ofSource h hv
  exact ⟨hunquoted, Value.read_text_of_isData hlist hdata hunquoted hsize⟩

section

open scoped Machine

/-- The comparison is false, and comes back as a name. -/
theorem Run.read_printed_nested :
    let v : Value := .list (.fresh 2)
      [.int 1, .str (.fresh 0) "a b", .list (.fresh 1) [.nil, .bool false]]
    ofSource 4 {} "(list 1 (+ \"a\" \" b\") (list nil (= 1 2)))" = some ⟨.ok v, ""⟩ ∧
      v.text = "(1 \"a b\" (nil false))" ∧ v.IsData ∧
      v.Unquoted ∧ ∃ form, read v.text = .ok [form] ∧ form.bare = .list [.int 1 .nowhere,
        .str "a b" .nowhere, .list [.symbol "nil" .nowhere, .symbol "false" .nowhere] .nowhere]
        .nowhere := by
  intro v
  have hrun : ofSource 4 {} "(list 1 (+ \"a\" \" b\") (list nil (= 1 2)))" =
      some ⟨.ok v, ""⟩ := by
    cbv
  have htext : v.text = "(1 \"a b\" (nil false))" := by cbv
  have hdata : v.IsData := by simp [Value.IsData, v, Value.parts, Value.partsAll, Value.isProcedure]
  obtain ⟨hunquoted, hread⟩ := read_printed 4 {} _ _ v hrun rfl rfl hdata (by rw [htext]; decide)
  exact ⟨hrun, htext, hdata, hunquoted, hread⟩

end

end SmallLisp
