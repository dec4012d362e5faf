import SmallLisp.Proofs.Form.Places
import SmallLisp.Proofs.Form.Shift

/-!
# The places of forms are exact

A form that is read from a source is what its span covers there, and nothing else: the text of an
atom stands for the atom, and the text of a list is read as that list alone, at every depth
(`read_slices`).  The items of a list lie between its parentheses, one after the other.

The tokens of a node are a run of the tokens of the source (`Spelling.exists_tokens`).  For a list
the run is cut out of the tiling of the source at its two parentheses (`Tiling.cut`), where no atom
can be cut in two; what is between the parentheses is tiled as it was, so the text of the list can
be read by itself.
-/

namespace SmallLisp

/-! ## What is said of a node -/

/-- The source between the two ends of a list is the list, and the items are inside it. -/
structure Form.ListSliced (source : String) (items : List Form) (span : Span) : Prop where
  /-- The text goes from one parenthesis to the other, and is read as the list. -/
  text : ∃ inside, span.slice? source = some ("(" ++ inside ++ ")") ∧
    read ("(" ++ inside ++ ")") =
      .ok [(Form.list items span).mapSpan (Span.earlier span.start)]
  /-- The items are between the parentheses. -/
  inside : ∀ item ∈ items, span.start < item.span.start ∧ item.span.stop < span.stop
  /-- Each item begins where the ones before it have ended, or later. -/
  disjoint : items.Pairwise fun a b => a.span.stop ≤ b.span.start

/-- The source at the place of the form is the form. -/
def Form.Sliced (source : String) : Form → Prop
  | list items span => ListSliced source items span
  | leaf => ∃ text, leaf.span.slice? source = some text ∧ ofAtom text leaf.span = .ok leaf

lemma Form.sliced_of_isList_eq_false {source : String} {leaf : Form} (h : leaf.isList = false) :
    leaf.Sliced source ↔
      ∃ text, leaf.span.slice? source = some text ∧ ofAtom text leaf.span = .ok leaf := by
  cases leaf with
  | list => cases h
  | _ => rfl

/-! ## Tokens and the forms that they spell -/

/-- The tokens of a part are a run of the tokens. -/
theorem Spelling.exists_tokens {ts : List Token} {fs : List Form} (h : Spelling ts fs) {node : Form}
    (hnode : node ∈ Form.nodesAll fs) :
    ∃ before mid after, ts = before ++ (mid ++ after) ∧ Spelling mid [node] := by
  induction h with
  | nil => cases hnode
  | @atom t ts form forms kind reads tail ih =>
    rw [Form.nodesAll, Form.nodes_of_isList_eq_false (Form.isList_of_ofAtom reads)] at hnode
    rcases List.mem_cons.mp hnode with rfl | hnode
    · exact ⟨[], [t], ts, rfl, .atom kind reads .nil⟩
    · obtain ⟨before, mid, after, rfl, hmid⟩ := ih hnode
      exact ⟨t :: before, mid, after, rfl, hmid⟩
  | @list o c inner ts items forms opening closing inside tail ihInside ihTail =>
    rw [Form.nodesAll, Form.nodes, List.cons_append, List.mem_cons, List.mem_append] at hnode
    rcases hnode with rfl | hnode | hnode
    · exact ⟨[], o :: (inner ++ [c]), ts, by simp, .list opening closing inside .nil⟩
    · obtain ⟨before, mid, after, rfl, hmid⟩ := ihInside hnode
      exact ⟨o :: before, mid, after ++ c :: ts, by simp, hmid⟩
    · obtain ⟨before, mid, after, rfl, hmid⟩ := ihTail hnode
      exact ⟨o :: (inner ++ c :: before), mid, after, by simp, hmid⟩

/-- The tokens of a tiling lie in the tiled text. -/
lemma Tiling.within {offset : Nat} {cs : List Char} {ts : List Token} (h : Tiling offset cs ts) :
    ∀ t ∈ ts, offset ≤ t.span.start ∧ t.span.start < t.span.stop ∧
      t.span.stop ≤ offset + byteLength cs := by
  induction h with
  | done => simp
  | separator blank tail ih =>
    intro t ht
    have hmem := ih t ht
    simp only [byteLength_cons]
    omega
  | @token offset kind text rest ts lexeme tail ih =>
    have hpos := byteLength_pos lexeme.ne_nil
    simp only [byteLength_append]
    intro t ht
    rcases List.mem_cons.mp ht with rfl | ht
    · simp only [Token.ofChars]
      omega
    · have hmem := ih t ht
      omega

/-- Forms begin and end with tokens that spell them, and stand one after the other as these do. -/
theorem Spelling.ordered {ts : List Token} {fs : List Form} (h : Spelling ts fs)
    (hspan : ∀ t ∈ ts, t.span.start < t.span.stop)
    (hordered : ts.Pairwise fun s t => s.span.stop ≤ t.span.start) :
    (∀ form ∈ fs, (∃ t ∈ ts, t.span.start = form.span.start) ∧
      ∃ t ∈ ts, t.span.stop = form.span.stop) ∧
      fs.Pairwise fun a b => a.span.stop ≤ b.span.start := by
  induction h with
  | nil => simp
  | @atom t ts form forms kind reads tail ih =>
    obtain ⟨hfirst, hrest⟩ := List.pairwise_cons.mp hordered
    obtain ⟨hforms, hpairs⟩ := ih (fun u hu => hspan u (List.mem_cons_of_mem _ hu)) hrest
    have hform := (Form.span_of_ofAtom reads).1
    refine ⟨List.forall_mem_cons.mpr ⟨by simp [hform], fun form hform => ?_⟩,
      List.pairwise_cons.mpr ⟨fun next hnext => ?_, hpairs⟩⟩
    · obtain ⟨⟨u, hu, hstart⟩, v, hv, hstop⟩ := hforms form hform
      exact ⟨⟨u, List.mem_cons_of_mem _ hu, hstart⟩, v, List.mem_cons_of_mem _ hv, hstop⟩
    · obtain ⟨⟨u, hu, hstart⟩, -⟩ := hforms next hnext
      rw [hform, ← hstart]
      exact hfirst u hu
  | @list o c inner ts items forms opening closing inside tail _ ih =>
    obtain ⟨hafter, -, htail, -⟩ :
        (∀ t ∈ inner ++ c :: ts, o.span.stop ≤ t.span.start) ∧
        inner.Pairwise (fun s t => s.span.stop ≤ t.span.start) ∧
          (c :: ts).Pairwise (fun s t => s.span.stop ≤ t.span.start) ∧ _ := by
      simpa only [List.pairwise_cons, List.pairwise_append] using hordered
    obtain ⟨hclose, hrest⟩ := List.pairwise_cons.mp htail
    obtain ⟨hforms, hpairs⟩ := ih (fun u hu => hspan u (by simp [hu])) hrest
    have hbetween := hafter c (by simp)
    have ho := hspan o (by simp)
    have hc := hspan c (by simp)
    have hstart : (o.span.cover c.span).start = o.span.start := by
      simp only [Span.cover]
      omega
    have hstop : (o.span.cover c.span).stop = c.span.stop := by
      simp only [Span.cover]
      omega
    refine ⟨List.forall_mem_cons.mpr ⟨⟨⟨o, by simp, hstart.symm⟩, c, by simp, hstop.symm⟩,
      fun form hform => ?_⟩, List.pairwise_cons.mpr ⟨fun next hnext => ?_, hpairs⟩⟩
    · obtain ⟨⟨u, hu, hustart⟩, v, hv, hvstop⟩ := hforms form hform
      exact ⟨⟨u, by simp [hu], hustart⟩, v, by simp [hv], hvstop⟩
    · obtain ⟨⟨u, hu, hustart⟩, -⟩ := hforms next hnext
      change (o.span.cover c.span).stop ≤ _
      rw [hstop, ← hustart]
      exact hclose u hu

/-! ## Cutting a list out of its source -/

/-- A list is cut out of a tiled text at its parentheses.  What is between them is tiled by itself,
and so is the text of the whole list. -/
lemma Tiling.exists_list {cs : List Char} {before inner after : List Token} {o c : Token}
    (h : Tiling 0 cs (before ++ o :: (inner ++ c :: after))) (opening : o.kind = .opening)
    (closing : c.kind = .closing) :
    ∃ front inside back, cs = front ++ ('(' :: (inside ++ [')']) ++ back) ∧
      o.span = ⟨byteLength front, byteLength front + 1⟩ ∧
      c.span = ⟨byteLength front + 1 + byteLength inside,
        byteLength front + 1 + byteLength inside + 1⟩ ∧
      Tiling (byteLength front + 1) inside inner ∧
      Tiling (byteLength front) ('(' :: (inside ++ [')'])) (o :: (inner ++ [c])) := by
  obtain ⟨front, text, rest, rfl, -, ho, hlexeme, hrest⟩ := h.cut
  rw [opening] at hlexeme ho
  obtain rfl := lexeme_opening_iff.mp hlexeme
  obtain ⟨inside, text, back, rfl, hinside, hc, hlexeme', -⟩ := hrest.cut
  rw [closing] at hlexeme' hc
  obtain rfl := lexeme_closing_iff.mp hlexeme'
  rw [Nat.zero_add] at ho hc hinside
  change Tiling (byteLength front + 1) inside inner at hinside
  refine ⟨front, inside, back, by simp, by rw [ho]; rfl, by rw [hc]; rfl, hinside, ?_⟩
  have hlast : Tiling (byteLength front + 1 + byteLength inside) [')'] [c] := by
    rw [hc]
    exact .token .closing .done
  have hfirst := Tiling.token (@Lexeme.opening (inside ++ [')']))
    (hinside.append hlast (endsAtom_cons rfl))
  rw [ho]
  exact hfirst

/-- A list of a source is what its span covers. -/
lemma Form.listSliced_of_tiling {source : String} {before inner after : List Token} {o c : Token}
    {items : List Form} (h : Tiling 0 source.toList (before ++ o :: (inner ++ c :: after)))
    (hsize : source.utf8ByteSize < Span.limit) (opening : o.kind = .opening)
    (closing : c.kind = .closing) (spelled : Spelling inner items) :
    ListSliced source items (o.span.cover c.span) := by
  obtain ⟨front, inside, back, hsource, ho, hc, hinside, hlist⟩ := h.exists_list opening closing
  have hcover : o.span.cover c.span =
      ⟨byteLength front, byteLength front + byteLength ('(' :: (inside ++ [')']))⟩ := by
    have hparenthesis : Char.utf8Size '(' = 1 ∧ Char.utf8Size ')' = 1 := ⟨rfl, rfl⟩
    simp only [ho, hc, Span.cover, byteLength_cons, byteLength_append, byteLength_nil,
      hparenthesis, Span.mk.injEq]
    omega
  obtain ⟨hbounds, hpairs⟩ :=
    spelled.ordered (fun t ht => (hinside.within t ht).2.1) hinside.ordered.1
  refine ⟨⟨String.ofList inside, ?_, ?_⟩, fun item hitem => ?_, hpairs⟩
  · rw [hcover, Span.slice?_append hsource]
    simp [← String.toList_inj]
  · have htiling := @Tiling.move _ 0 _ _ (· - byteLength front) hlist (by simp)
    have hspelling := (Spelling.list opening closing spelled .nil).move
      (monotone_earlier (byteLength front))
    rw [hcover] at hspelling ⊢
    refine read_eq_ok_iff.mpr ⟨?_, ?_, _, by simpa using htiling, hspelling⟩
    · have htotal := congrArg byteLength hsource
      rw [byteLength_toList, byteLength_append, byteLength_append] at htotal
      have htext : ("(" ++ String.ofList inside ++ ")").utf8ByteSize =
          byteLength ('(' :: (inside ++ [')'])) := by
        rw [← byteLength_toList]
        simp
      omega
    · intro form hform
      obtain rfl := List.mem_singleton.mp hform
      exact isList_mapSpan _
  · obtain ⟨⟨t, ht, hstart⟩, u, hu, hstop⟩ := hbounds item hitem
    have hfirst := (hinside.within t ht).1
    have hlast := (hinside.within u hu).2.2
    simp only [ho, hc, Span.cover]
    omega

/-! ## Every node -/

/-- Every part of the forms that are read from a source is what its span covers: an atom stands for
itself there, and a list is read from its text alone, with its places counted from its opening
parenthesis; its items are inside of it, one after the other.  So are the forms in the source. -/
theorem read_slices (source : String) (fs : List Form) (h : read source = .ok fs) :
    (∀ node ∈ Form.nodesAll fs, node.Sliced source) ∧
      fs.Pairwise fun a b => a.span.stop ≤ b.span.start := by
  obtain ⟨hsize, -, ts, htiling, hspelling⟩ := read_eq_ok_iff.mp h
  refine ⟨fun node hnode => ?_,
    (hspelling.ordered (fun t ht => (htiling.within t ht).2.1) htiling.ordered.1).2⟩
  obtain ⟨before, mid, after, rfl, hmid⟩ := hspelling.exists_tokens hnode
  cases hmid with
  | @atom t _ _ _ kind reads tail =>
    cases tail
    rw [Form.sliced_of_isList_eq_false (Form.isList_of_ofAtom reads),
      (Form.span_of_ofAtom reads).1]
    exact ⟨t.text, (htiling.standsIn rfl paired_nil t (by simp)).sliced, reads⟩
  | @list o c inner _ items _ opening closing inside tail =>
    cases tail
    exact Form.listSliced_of_tiling (by simpa using htiling) hsize opening closing inside

/-- The inner list is read again, with its places counted from its own parenthesis; the string in
it holds a parenthesis. -/
theorem read_slices_inner :
    read "(é (f \")\"))" = .ok [.list [.symbol "é" ⟨1, 3⟩,
      .list [.symbol "f" ⟨5, 6⟩, .str ")" ⟨7, 10⟩] ⟨4, 11⟩] ⟨0, 12⟩] ∧
    Form.ListSliced "(é (f \")\"))" [.symbol "f" ⟨5, 6⟩, .str ")" ⟨7, 10⟩] ⟨4, 11⟩ ∧
    Span.slice? ⟨4, 11⟩ "(é (f \")\"))" = some "(f \")\")" := by
  have hread : read "(é (f \")\"))" = .ok [.list [.symbol "é" ⟨1, 3⟩,
      .list [.symbol "f" ⟨5, 6⟩, .str ")" ⟨7, 10⟩] ⟨4, 11⟩] ⟨0, 12⟩] := by
    cbv
  refine ⟨hread, ?_, by cbv⟩
  exact (read_slices _ _ hread).1 (.list [.symbol "f" ⟨5, 6⟩, .str ")" ⟨7, 10⟩] ⟨4, 11⟩)
    (by simp [Form.nodesAll, Form.nodes])

end SmallLisp
