import Mathlib
import SmallLisp.Span

/-!
# Cutting a text at the ends of its parts

Spans count bytes and sources are runs of characters.  The two meet where a source is written as
several parts one after the other: a span whose ends are the byte lengths of prefixes cuts exactly
there (`dropBytes?_append`, `takeBytes?_append`, `Span.slice?_append`).
-/

namespace SmallLisp

/-- The number of bytes of a run of characters. -/
def byteLength (cs : List Char) : Nat := (cs.map Char.utf8Size).sum

@[simp] lemma byteLength_nil : byteLength [] = 0 := rfl

@[simp] lemma byteLength_cons (c : Char) (cs : List Char) :
    byteLength (c :: cs) = c.utf8Size + byteLength cs := rfl

@[simp] lemma byteLength_append (cs ds : List Char) :
    byteLength (cs ++ ds) = byteLength cs + byteLength ds := by
  simp [byteLength]

lemma byteLength_pos {cs : List Char} (h : cs ≠ []) : 0 < byteLength cs := by
  cases cs with
  | nil => exact absurd rfl h
  | cons c rest =>
    rw [byteLength_cons]
    exact Nat.add_pos_left c.utf8Size_pos _

lemma utf8ByteSize_ofList (cs : List Char) : (String.ofList cs).utf8ByteSize = byteLength cs := by
  induction cs with
  | nil => simp
  | cons c cs ih =>
    rw [← List.singleton_append, String.ofList_append, String.utf8ByteSize_append, ih,
      ← String.singleton_eq_ofList, String.utf8ByteSize_singleton]
    rfl

@[simp] lemma byteLength_toList (s : String) : byteLength s.toList = s.utf8ByteSize := by
  rw [← utf8ByteSize_ofList, String.ofList_toList]

/-- The beginnings of a text are beginnings of each other, the shorter ones of the longer ones. -/
lemma exists_append_of_byteLength_le {before after before' after' : List Char}
    (h : before ++ after = before' ++ after') (hle : byteLength before ≤ byteLength before') :
    ∃ between, before' = before ++ between := by
  rcases List.append_eq_append_iff.mp h with ⟨between, hbetween, -⟩ | ⟨excess, hexcess, -⟩
  · exact ⟨between, hbetween⟩
  · cases excess with
    | nil => exact ⟨[], by simpa using hexcess.symm⟩
    | cons c excess =>
      have hpos := c.utf8Size_pos
      rw [hexcess, byteLength_append, byteLength_cons] at hle
      omega

lemma dropBytes?_cons (c : Char) (cs : List Char) (n : Nat) :
    dropBytes? (c.utf8Size + n) (c :: cs) = dropBytes? n cs := by
  obtain ⟨m, hm⟩ := Nat.exists_eq_succ_of_ne_zero (Nat.pos_iff_ne_zero.mp c.utf8Size_pos)
  rw [hm, Nat.succ_add, dropBytes?, if_pos (by omega), hm]
  congr 1
  omega

lemma takeBytes?_cons (c : Char) (cs : List Char) (n : Nat) :
    takeBytes? (c.utf8Size + n) (c :: cs) = (takeBytes? n cs).map (c :: ·) := by
  obtain ⟨m, hm⟩ := Nat.exists_eq_succ_of_ne_zero (Nat.pos_iff_ne_zero.mp c.utf8Size_pos)
  rw [hm, Nat.succ_add, takeBytes?, if_pos (by omega), hm]
  congr 2
  omega

/-- The bytes of a prefix can be dropped. -/
theorem dropBytes?_append (cs rest : List Char) :
    dropBytes? (byteLength cs) (cs ++ rest) = some rest := by
  induction cs with
  | nil => cases rest <;> rfl
  | cons c cs ih => rw [byteLength_cons, List.cons_append, dropBytes?_cons, ih]

/-- The bytes of a prefix can be taken. -/
theorem takeBytes?_append (cs rest : List Char) :
    takeBytes? (byteLength cs) (cs ++ rest) = some cs := by
  induction cs with
  | nil => cases rest <;> rfl
  | cons c cs ih =>
    rw [byteLength_cons, List.cons_append, takeBytes?_cons, ih]
    rfl

namespace Span

/-- The span from the end of one prefix to the end of a longer one covers what is between. -/
theorem slice?_append {source : String} {before text after : List Char}
    (h : source.toList = before ++ (text ++ after)) :
    slice? ⟨byteLength before, byteLength before + byteLength text⟩ source =
      some (String.ofList text) := by
  rw [slice?, if_pos (Nat.le_add_right _ _), h, dropBytes?_append]
  simp [length, takeBytes?_append]

end Span

/-- The span covers a part of the text, which is not empty. -/
def Span.Covers (span : Span) (cs text : List Char) : Prop :=
  ∃ before after, cs = before ++ (text ++ after) ∧ text ≠ [] ∧
    span = ⟨byteLength before, byteLength before + byteLength text⟩

namespace Span.Covers

variable {span span' : Span} {cs text text' : List Char}

lemma start_lt_stop (h : span.Covers cs text) : span.start < span.stop := by
  obtain ⟨before, after, -, hne, rfl⟩ := h
  exact Nat.lt_add_of_pos_right (byteLength_pos hne)

lemma stop_le (h : span.Covers cs text) : span.stop ≤ byteLength cs := by
  obtain ⟨before, after, rfl, -, rfl⟩ := h
  simp only [byteLength_append]
  omega

lemma slice?_eq {source : String} (h : span.Covers source.toList text) :
    span.slice? source = some (String.ofList text) := by
  obtain ⟨before, after, hsource, -, rfl⟩ := h
  exact slice?_append hsource

/-- From a part of the text to a later one there is a part of the text. -/
lemma cover (h : span.Covers cs text) (h' : span'.Covers cs text')
    (hle : span.stop ≤ span'.start) : ∃ between, (span.cover span').Covers cs between := by
  obtain ⟨before, after, rfl, hne, rfl⟩ := h
  obtain ⟨before', after', hcs, -, rfl⟩ := h'
  have hlonger : byteLength (before ++ text) ≤ byteLength before' := by simpa using hle
  obtain ⟨between, rfl⟩ := exists_append_of_byteLength_le (by simpa using hcs) hlonger
  refine ⟨text ++ (between ++ text'), before, after', by simpa using hcs, by simp [hne], ?_⟩
  simp only [Span.cover, byteLength_append, Span.mk.injEq]
  omega

end Span.Covers

end SmallLisp
