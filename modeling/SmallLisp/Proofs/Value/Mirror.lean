import SmallLisp.Proofs.Form.RoundTrip
import SmallLisp.Proofs.Value.Matching

/-!
# The mirror of a value

Data looks like the forms that it is written with: a list of numbers is written as a list of
numerals.  `Value.mirror` is that form.  A value is printed inside a list exactly as its mirror is
written (`Value.texts_mirrorAll`), and the mirror can be read back from there if the value consists
of data and no string in it has a quote (`Value.readable_mirrorAll`).
-/

namespace SmallLisp

namespace Value

mutual

/-- The value and all values inside of it, each before its elements. -/
def parts : Value → List Value
  | list id items => list id items :: partsAll items
  | v => [v]

/-- Several values and all values inside of them. -/
def partsAll : List Value → List Value
  | [] => []
  | v :: vs => v.parts ++ partsAll vs

end

mutual

/-- The form that stands for the same data; truth values and `nil` are symbols, and so would
procedures be, which are no data.  Doubles that are no numbers all have the same mirror. -/
def mirror : Value → Form
  | int n => .int n .nowhere
  | float x => .float (Binary64.canonical x) .nowhere
  | str _ text => .str text .nowhere
  | bool b => .symbol (if b then "true" else "false") .nowhere
  | nil => .symbol "nil" .nowhere
  | list _ items => .list (mirrorAll items) .nowhere
  | closure _ c => .symbol c.text .nowhere
  | primitive p => .symbol ("<primitive " ++ p.name ++ ">") .nowhere

def mirrorAll : List Value → List Form
  | [] => []
  | v :: vs => v.mirror :: mirrorAll vs

end

/-- Values are printed as their mirrors are written. -/
lemma texts_mirrorAll (vs : List Value) : Form.texts (mirrorAll vs) = itemTexts vs := by
  induction vs using values_induction with
  | nil => rfl
  | scalar v vs hv ih =>
    rw [mirrorAll, Form.texts, itemTexts, ih]
    cases v with
    | list => cases hv
    | float x => simp [mirror, Form.text, itemText]
    | _ => rfl
  | list id items vs ihItems ihRest =>
    rw [mirrorAll, Form.texts, itemTexts, mirror, Form.text, itemText, ihItems, ihRest]

/-- A mirror has no places. -/
lemma bareAll_mirrorAll (vs : List Value) : Form.bareAll (mirrorAll vs) = mirrorAll vs := by
  induction vs using values_induction with
  | nil => rfl
  | scalar v vs hv ih =>
    rw [mirrorAll, Form.bareAll, ih]
    cases v with
    | list => cases hv
    | float x => simp [mirror, Form.bare]
    | _ => rfl
  | list id items vs ihItems ihRest =>
    rw [mirrorAll, Form.bareAll, mirror, Form.bare, ihItems, ihRest]

/-- Data are values that are no procedures, and have none inside. -/
def IsData (v : Value) : Prop := ∀ part ∈ v.parts, part.isProcedure = false

/-- No string in the value has a quote in it. -/
def Unquoted (v : Value) : Prop := ∀ id text, .str id text ∈ v.parts → '"' ∉ text.toList

/-- The strings in values that match have texts that strings may have. -/
lemma text_of_matches {M : Matching} {C : Closure → Closure → Prop} {vs ws : List Value}
    (h : List.Forall₂ (Matches M C) vs ws) {id : Identity} {text : String}
    (hmem : .str id text ∈ partsAll vs) : M.text text := by
  induction vs using values_induction generalizing ws with
  | nil => cases hmem
  | scalar v vs hv ih =>
    cases h with
    | cons h htail =>
      rcases List.mem_append.mp hmem with hmem | hmem
      · cases h with
        | list => cases hv
        | str _ htext =>
          cases List.mem_singleton.mp hmem
          exact htext
        | _ => cases List.mem_singleton.mp hmem
      · exact ih htail hmem
  | list id items vs ihItems ihRest =>
    cases h with
    | cons h htail =>
      cases h with
      | list _ hitems =>
        rw [partsAll, parts, List.cons_append, List.mem_cons, List.mem_append] at hmem
        rcases hmem with hmem | hmem | hmem
        · cases hmem
        · exact ihItems hitems hmem
        · exact ihRest htail hmem

end Value

/-! ## Reading mirrors -/

namespace Form

lemma readable_int (n : Int64) (span : Span) : (int n span).Readable := by
  have hread : ofAtom (Integer.text n) span = .ok (int n span) := by
    simp [ofAtom, Literal.isInteger_text, Literal.integerValue_text, Integer.ofInt?_toInt]
  exact readable_of_ofAtom hread (isAtom_text_integer n)

lemma readable_float (x : Double) (span : Span) :
    (float (Binary64.canonical x) span).Readable := by
  have hread :
      ofAtom (Layout.positional.write x) span = .ok (float (Binary64.canonical x) span) := by
    simp [ofAtom, Literal.isInteger_write, Literal.double?_write]
  exact readable_of_ofAtom hread (isAtom_write x)

/-- A text between quotes is a string literal, unless there are further quotes in it. -/
lemma readable_str {text : String} (h : '"' ∉ text.toList) (span : Span) :
    (str text span).Readable := by
  have htext : ("\"" ++ text ++ "\"").toList = '"' :: (text.toList ++ ['"']) := by simp
  have hinteger : Literal.isInteger ('"' :: (text.toList ++ ['"'])) = false :=
    Literal.isInteger_eq_false List.mem_cons_self (by decide) (by decide) (by decide)
  have hunquote : unquote? ('"' :: (text.toList ++ ['"'])) = some text.toList := by
    simp [unquote?]
  have hread : ofAtom ("\"" ++ text ++ "\"") span = .ok (str text span) := by
    simp only [ofAtom, htext, hinteger, Literal.double?_quote, hunquote, String.ofList_toList]
    rfl
  have hatom : IsAtom ("\"" ++ text ++ "\"").toList := by
    rw [htext]
    exact @IsAtom.quoted [] text.toList (by simp) h
  exact readable_of_ofAtom hread hatom

/-- The quotes of a string literal are not in the string. -/
lemma not_mem_quote_of_readable {text : String} {span : Span}
    (h : (str text span).Readable) : '"' ∉ text.toList := by
  have hatom : IsAtom ('"' :: (text.toList ++ ['"'])) := by
    simpa [Form.text] using h.1
  generalize hall : '"' :: (text.toList ++ ['"']) = all at hatom
  cases hatom with
  | word _ plain =>
    subst hall
    exact absurd List.mem_cons_self (not_mem_quote_of_isPlain plain)
  | @quoted lead body plain unquoted =>
    cases lead with
    | nil =>
      have hbody : text.toList = body := by simpa using hall
      rwa [hbody]
    | cons c lead =>
      have hc : '"' = c := (List.cons.inj hall).1
      exact absurd (hc ▸ List.mem_cons_self) (not_mem_quote_of_isPlain plain)

/-- The names that stand for values without contents are read as symbols. -/
lemma readable_names (span : Span) : (symbol "nil" span).Readable ∧
    (symbol "true" span).Readable ∧ (symbol "false" span).Readable := by
  have hword (name : String) (hne : name.toList ≠ []) (hplain : name.toList.all isPlain)
      (hread : ofAtom name span = .ok (symbol name span)) : (symbol name span).Readable :=
    readable_of_ofAtom hread (.word hne (List.all_eq_true.mp hplain))
  exact ⟨hword "nil" (by decide) rfl rfl, hword "true" (by decide) rfl rfl,
    hword "false" (by decide) rfl rfl⟩

end Form

namespace Value

/-- The leaves of the mirrors of data can be read, if strings have no quotes in them. -/
theorem readable_mirrorAll {vs : List Value}
    (hdata : ∀ part ∈ partsAll vs, part.isProcedure = false)
    (hunquoted : ∀ id text, .str id text ∈ partsAll vs → '"' ∉ text.toList) :
    ∀ leaf ∈ Form.leavesAll (mirrorAll vs), leaf.Readable := by
  induction vs using values_induction with
  | nil => simp [mirrorAll, Form.leavesAll]
  | scalar v vs hv ih =>
    simp only [partsAll, List.mem_append] at hdata hunquoted
    have hrest := ih (fun part hpart => hdata part (.inr hpart))
      fun id text htext => hunquoted id text (.inr htext)
    have hself : v ∈ v.parts := by
      cases v with
      | list => cases hv
      | _ => simp [parts]
    have hproc := hdata v (.inl hself)
    simp only [mirrorAll, Form.leavesAll, List.mem_append]
    rintro leaf (hleaf | hleaf)
    · obtain ⟨hnil, htrue, hfalse⟩ := Form.readable_names .nowhere
      cases v with
      | list => cases hv
      | closure => cases hproc
      | primitive => cases hproc
      | int n =>
        obtain rfl := List.mem_singleton.mp hleaf
        exact Form.readable_int n .nowhere
      | float x =>
        obtain rfl := List.mem_singleton.mp hleaf
        exact Form.readable_float x .nowhere
      | str id text =>
        obtain rfl := List.mem_singleton.mp hleaf
        exact Form.readable_str (hunquoted id text (.inl hself)) .nowhere
      | bool b =>
        obtain rfl := List.mem_singleton.mp hleaf
        cases b with
        | true => exact htrue
        | false => exact hfalse
      | nil =>
        obtain rfl := List.mem_singleton.mp hleaf
        exact hnil
    · exact hrest leaf hleaf
  | list id items vs ihItems ihRest =>
    simp only [partsAll, parts, List.cons_append, List.mem_cons, List.mem_append] at hdata hunquoted
    simp only [mirrorAll, mirror, Form.leavesAll, Form.leaves, List.mem_append]
    rintro leaf (hleaf | hleaf)
    · exact ihItems (fun part hpart => hdata part (.inr (.inl hpart)))
        (fun id text htext => hunquoted id text (.inr (.inl htext))) leaf hleaf
    · exact ihRest (fun part hpart => hdata part (.inr (.inr hpart)))
        (fun id text htext => hunquoted id text (.inr (.inr htext))) leaf hleaf

/-- A list of data without quotes in its strings is printed as a source that is read as the mirror
of the list, unless it is too long to be read at all. -/
theorem read_text_of_isData {v : Value} (hlist : v.kind = .list) (hdata : v.IsData)
    (hunquoted : v.Unquoted) (hsize : v.text.utf8ByteSize < Span.limit) :
    ∃ form, read v.text = .ok [form] ∧ form.bare = v.mirror := by
  have hreadable : ∀ leaf ∈ Form.leavesAll [v.mirror], leaf.Readable :=
    @readable_mirrorAll [v] (by simpa [partsAll, IsData] using hdata)
      (by simpa [partsAll, Unquoted] using hunquoted)
  have hmirror : v.mirror.isList ∧ Form.line [v.mirror] = v.text.toList := by
    have htexts := texts_mirrorAll [v]
    cases v with
    | list id items => exact ⟨rfl, congrArg (fun texts => (" ".intercalate texts).toList) htexts⟩
    | _ => cases hlist
  obtain ⟨hmirrorList, hprinted⟩ := hmirror
  obtain ⟨ts, gs, htiling, hspelling, hbare⟩ :=
    rereads_line [v.mirror] hreadable 0 [] [] endsAtom_nil .done
  rw [List.append_nil, List.append_nil, hprinted] at htiling
  have lists := Form.isList_of_bareAll_eq hbare (by simpa using hmirrorList)
  rw [show Form.bareAll [v.mirror] = [v.mirror] from bareAll_mirrorAll [v]] at hbare
  cases gs with
  | nil => cases hbare
  | cons g gs =>
    cases gs with
    | cons => cases (List.cons.inj hbare).2
    | nil => exact ⟨g, read_eq_ok_iff.mpr ⟨hsize, lists, ts, htiling, hspelling⟩,
        (List.cons.inj hbare).1⟩

end Value

end SmallLisp
