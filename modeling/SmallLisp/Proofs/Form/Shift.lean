import Mathlib
import SmallLisp.Proofs.Form.RoundTrip

/-!
# Texts that stand elsewhere

What a text is read as does not depend on where it stands, except that all places move along with
it.  Moving is a function on byte offsets (`Span.map`), applied to tokens and to forms.  A tiling
goes to one at another offset if offsets from the first one on are moved by the same amount
(`Tiling.move`), and a spelling to a spelling if their order is kept (`Spelling.move`).

Tilings can be put one after the other (`Tiling.append`), and a tiling be cut at a token
(`Tiling.cut`).
-/

namespace SmallLisp

/-! ## Moving -/

namespace Span

/-- The span with both its ends moved. -/
def map (f : Nat → Nat) (s : Span) : Span := ⟨f s.start, f s.stop⟩

/-- The span of the same text behind `n` further bytes. -/
def later (n : Nat) : Span → Span := map (· + n)

/-- The span of the same text when the `n` bytes before it are left out. -/
def earlier (n : Nat) : Span → Span := map (· - n)

lemma cover_map {f : Nat → Nat} (hf : Monotone f) (s t : Span) :
    (s.map f).cover (t.map f) = (s.cover t).map f := by
  simp [cover, map, hf.map_min, hf.map_max]

lemma later_injective (n : Nat) : Function.Injective (later n) := by
  rintro ⟨start, stop⟩ ⟨start', stop'⟩ h
  simpa [later, map] using h

end Span

lemma monotone_later (n : Nat) : Monotone (· + n) := fun _ _ h => Nat.add_le_add_right h n

lemma monotone_earlier (n : Nat) : Monotone (· - n) := fun _ _ h => Nat.sub_le_sub_right h n

/-- The same token elsewhere. -/
def Token.move (f : Nat → Nat) (t : Token) : Token := { t with span := t.span.map f }

namespace Form

mutual

/-- The form with a function applied to all its spans. -/
def mapSpan (f : Span → Span) : Form → Form
  | int value span => int value (f span)
  | float value span => float value (f span)
  | str text span => str text (f span)
  | symbol name span => symbol name (f span)
  | list items span => list (mapSpanAll f items) (f span)

/-- Several forms with a function applied to all their spans. -/
def mapSpanAll (f : Span → Span) : List Form → List Form
  | [] => []
  | form :: forms => form.mapSpan f :: mapSpanAll f forms

end

variable {f : Span → Span}

@[simp] lemma mapSpanAll_eq_map (forms : List Form) :
    mapSpanAll f forms = forms.map (mapSpan f) := by
  induction forms with
  | nil => rfl
  | cons form forms ih => rw [mapSpanAll, ih, List.map_cons]

@[simp] lemma isList_mapSpan (form : Form) : (form.mapSpan f).isList = form.isList := by
  cases form <;> simp [mapSpan, isList]

lemma map_mapSpan_id (forms : List Form) : forms.map (mapSpan id) = forms := by
  induction forms using forms_induction with
  | nil => rfl
  | leaf form forms hform ih =>
    rw [List.map_cons, ih]
    cases form with
    | list => cases hform
    | _ => rfl
  | list items span forms ihItems ihRest =>
    rw [List.map_cons, ihRest, mapSpan, mapSpanAll_eq_map, ihItems]
    rfl

/-- An atom stands for the same elsewhere. -/
lemma ofAtom_mapSpan {text : String} {span : Span} {form : Form}
    (h : ofAtom text span = .ok form) (f : Span → Span) :
    ofAtom text (f span) = .ok (form.mapSpan f) := by
  unfold ofAtom at h ⊢
  simp only at h ⊢
  repeat' split at h
  all_goals cases h
  all_goals simp [mapSpan, *]

end Form

/-! ## Tilings and spellings -/

/-- The same text at another offset has the same tokens there. -/
theorem Tiling.move {offset offset' : Nat} {cs : List Char} {ts : List Token} {f : Nat → Nat}
    (h : Tiling offset cs ts) (hf : ∀ n, f (offset + n) = offset' + n) :
    Tiling offset' cs (ts.map (Token.move f)) := by
  induction h generalizing offset' with
  | done => exact .done
  | separator blank tail ih =>
    exact .separator blank (ih fun n => by simpa [Nat.add_assoc] using hf (_ + n))
  | @token offset kind text rest ts lexeme tail ih =>
    have htoken : (Token.ofChars offset kind text).move f = .ofChars offset' kind text := by
      simpa [Token.move, Token.ofChars, Span.map] using ⟨hf 0, hf (byteLength text)⟩
    rw [List.map_cons, htoken]
    exact .token lexeme (ih fun n => by simpa [Nat.add_assoc] using hf (_ + n))

/-- The same tokens elsewhere spell the same forms elsewhere. -/
theorem Spelling.move {ts : List Token} {fs : List Form} {f : Nat → Nat} (h : Spelling ts fs)
    (hf : Monotone f) :
    Spelling (ts.map (Token.move f)) (fs.map (Form.mapSpan (Span.map f))) := by
  induction h with
  | nil => exact .nil
  | @atom t ts form forms kind reads tail ih =>
    exact Spelling.atom kind (Form.ofAtom_mapSpan reads (Span.map f)) ih
  | @list o c inner ts items forms opening closing inside tail ihInside ihTail =>
    have hlist := @Spelling.list (o.move f) (c.move f) _ _ _ _ opening closing ihInside ihTail
    simpa [Form.mapSpan, Span.cover_map hf, Token.move] using hlist

lemma EndsAtom.of_append {cs ds : List Char} (h : EndsAtom (cs ++ ds)) : EndsAtom cs := by
  cases cs with
  | nil => exact endsAtom_nil
  | cons c cs => exact h

/-- What is a lexeme before a text is one before the beginning of the text. -/
lemma Lexeme.of_append {kind : Token.Kind} {text cs ds : List Char}
    (h : Lexeme kind text (cs ++ ds)) : Lexeme kind text cs := by
  cases h with
  | opening => exact .opening
  | closing => exact .closing
  | atom isAtom ends => exact .atom isAtom fun hquote => (ends hquote).of_append

/-- Two texts are tiled one after the other, if the second one does not continue an atom. -/
theorem Tiling.append {offset : Nat} {cs ds : List Char} {ts us : List Token}
    (h : Tiling offset cs ts) (h' : Tiling (offset + byteLength cs) ds us) (hends : EndsAtom ds) :
    Tiling offset (cs ++ ds) (ts ++ us) := by
  induction h with
  | done => simpa using h'
  | separator blank tail ih =>
    exact .separator blank (ih (by simpa [Nat.add_assoc] using h'))
  | @token offset kind text rest ts lexeme tail ih =>
    rw [List.append_assoc, List.cons_append]
    refine .token ?_ (ih (by simpa [Nat.add_assoc] using h'))
    cases lexeme with
    | opening => exact .opening
    | closing => exact .closing
    | atom isAtom ends =>
      refine .atom isAtom fun hquote => ?_
      cases rest with
      | nil => exact hends
      | cons c rest => exact ends hquote

/-- A tiling before and from a token on. -/
theorem Tiling.cut {offset : Nat} {cs : List Char} {ts us : List Token} {u : Token}
    (h : Tiling offset cs (ts ++ u :: us)) :
    ∃ front text rest, cs = front ++ (text ++ rest) ∧ Tiling offset front ts ∧
      u = .ofChars (offset + byteLength front) u.kind text ∧ Lexeme u.kind text rest ∧
        Tiling (offset + byteLength front + byteLength text) rest us := by
  generalize hall : ts ++ u :: us = all at h
  induction h generalizing ts with
  | done => simp at hall
  | @separator offset c rest tokens blank tail ih =>
    obtain ⟨front, text, rest', rfl, hfront, hu, hlexeme, hrest⟩ := ih hall
    rw [Nat.add_assoc offset, ← byteLength_cons] at hu hrest
    exact ⟨c :: front, text, rest', rfl, .separator blank hfront, hu, hlexeme, hrest⟩
  | @token offset kind text rest tokens lexeme tail ih =>
    cases ts with
    | nil =>
      obtain ⟨rfl, rfl⟩ := List.cons.inj hall
      exact ⟨[], text, rest, rfl, .done, rfl, lexeme, tail⟩
    | cons t ts =>
      obtain ⟨rfl, rfl⟩ := List.cons.inj hall
      obtain ⟨front, text', rest', rfl, hfront, hu, hlexeme, hrest⟩ := ih rfl
      rw [Nat.add_assoc offset, ← byteLength_append] at hu hrest
      exact ⟨text ++ front, text', rest', by simp, .token lexeme.of_append hfront, hu, hlexeme,
        hrest⟩

end SmallLisp
