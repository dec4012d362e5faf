/-!
# Source positions

A span is a half-open range of byte offsets into the UTF-8 text of a source.  Offsets are
natural numbers; `Span.ofRange?` is the one place where the width of an address matters: a
source longer than `Span.limit` bytes cannot be addressed, and is refused before it is scanned.

`Span.slice?` gives the text that a span covers.  It works on characters, so a span that would
split one of them covers no text at all.
-/

namespace SmallLisp

/-! ## Cutting text at byte offsets -/

/-- What is left after the first `n` bytes; `none` when the text is shorter than that, or when
byte `n` lies inside a character. -/
def dropBytes? : Nat → List Char → Option (List Char)
  | 0, cs => some cs
  | _ + 1, [] => none
  | n + 1, c :: cs => if c.utf8Size ≤ n + 1 then dropBytes? (n + 1 - c.utf8Size) cs else none

/-- The first `n` bytes; `none` when the text is shorter than that, or when byte `n` lies inside
a character. -/
def takeBytes? : Nat → List Char → Option (List Char)
  | 0, _ => some []
  | _ + 1, [] => none
  | n + 1, c :: cs =>
    if c.utf8Size ≤ n + 1 then (takeBytes? (n + 1 - c.utf8Size) cs).map (c :: ·) else none

/-! ## Spans -/

/-- The byte range from `start` up to, and without, `stop`. -/
structure Span where
  /-- Offset of the first byte. -/
  start : Nat
  /-- Offset after the last byte. -/
  stop : Nat
deriving DecidableEq, Inhabited

namespace Span

/-- Offsets are below this bound, four gibibytes. -/
def limit : Nat := 4294967296

/-- The span of things that have no place in a source. -/
def nowhere : Span := ⟨0, 0⟩

/-- The span between two offsets, provided that both can be addressed. -/
def ofRange? (start stop : Nat) : Option Span :=
  if start < limit ∧ stop < limit then some ⟨start, stop⟩ else none

/-- Number of bytes covered; a span whose ends are reversed covers none. -/
def length (s : Span) : Nat := s.stop - s.start

def isEmpty (s : Span) : Bool := s.length == 0

/-- The smallest span that covers both `s` and `t`. -/
def cover (s t : Span) : Span := ⟨min s.start t.start, max s.stop t.stop⟩

/-- The text of `source` that the span covers; `none` when the ends are reversed, lie outside the
source or split a character. -/
def slice? (s : Span) (source : String) : Option String :=
  if s.start ≤ s.stop then
    (dropBytes? s.start source.toList).bind fun rest =>
      (takeBytes? s.length rest).map String.ofList
  else
    none

/-- A span is written as its two offsets with two points between them. -/
def text (s : Span) : String := s!"{s.start}..{s.stop}"

end Span

end SmallLisp
