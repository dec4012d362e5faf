import SmallLisp.Token

/-!
# Scanning a source into tokens

The scanner is an automaton that reads one character at a time (`Scan.step`), so that scanning a
source is a left fold over its characters and scanning a concatenation is scanning its parts one
after the other.

* Between atoms, separators are skipped and each parenthesis is a token.
* Any other character starts an atom, which runs up to the next separator or parenthesis.
* A double quote, also one in the middle of an atom, starts a quoted part.  It runs to the next
  double quote, whatever stands between the two, and the atom ends right after it.  There are no
  escapes.

The only way for a scan to fail is a quote that is never closed (`ScanError.unterminated`).
-/

namespace SmallLisp

/-- Why a source has no tokens. -/
inductive ScanError where
  /-- A double quote opens a string that runs to the end of the source. -/
  | unterminated (span : Span)
  /-- The source has more bytes than offsets can address. -/
  | tooLarge (bytes : Nat)
deriving DecidableEq

def ScanError.message : ScanError → String
  | unterminated span => s!"unterminated string literal starting at byte {span.start}"
  | tooLarge bytes => s!"source text of {bytes} bytes exceeds the 4 GiB limit"

def ScanError.span : ScanError → Span
  | unterminated span => span
  | tooLarge _ => .nowhere

/-- The characters that stand between atoms without meaning anything. -/
def isSeparator (c : Char) : Bool := c == ' ' || c == '\t' || c == '\n' || c == '\r'

/-- What the scanner is in the middle of.  Characters are collected last first. -/
inductive Scan.Mode where
  /-- Between atoms. -/
  | blank
  /-- In the unquoted part of the atom that began at `start`. -/
  | word (start : Nat) (seen : List Char)
  /-- In the quoted part, opened by the quote at `quote`, of the atom that began at `start`. -/
  | quoted (start quote : Nat) (seen : List Char)

/-- The scanner's state after some prefix of the source. -/
structure Scan where
  /-- The tokens that are complete, last first. -/
  tokens : List Token := []
  offset : Nat := 0
  /-- What the next character continues. -/
  mode : Scan.Mode := .blank

namespace Scan

/-- The atom that began at `start` and ends at `stop`, from its characters last first. -/
def atom (start stop : Nat) (seen : List Char) : Token :=
  ⟨.atom, String.ofList seen.reverse, ⟨start, stop⟩⟩

/-- The complete tokens once the unquoted atom in progress, if there is one, is ended. -/
def flushed (s : Scan) : List Token :=
  match s.mode with
  | .word start seen => atom start s.offset seen :: s.tokens
  | .blank | .quoted .. => s.tokens

/-- The state after one more character. -/
def step (s : Scan) (c : Char) : Scan :=
  let next := s.offset + c.utf8Size
  match s.mode with
  | .quoted start quote seen =>
    if c = '"' then ⟨atom start next (c :: seen) :: s.tokens, next, .blank⟩
    else ⟨s.tokens, next, .quoted start quote (c :: seen)⟩
  | mode =>
    if isSeparator c then ⟨s.flushed, next, .blank⟩
    else if c = '(' then ⟨.openingAt s.offset :: s.flushed, next, .blank⟩
    else if c = ')' then ⟨.closingAt s.offset :: s.flushed, next, .blank⟩
    else
      let (start, seen) := match mode with
        | .word start seen => (start, c :: seen)
        | _ => (s.offset, [c])
      if c = '"' then ⟨s.tokens, next, .quoted start s.offset seen⟩
      else ⟨s.tokens, next, .word start seen⟩

/-- The tokens of the whole source, once its last character is read. -/
def finish (s : Scan) : Except ScanError (List Token) :=
  match s.mode with
  | .quoted _ quote _ => .error (.unterminated ⟨quote, s.offset⟩)
  | .blank | .word .. => .ok s.flushed.reverse

end Scan

/-- The tokens of a run of characters. -/
def scan (source : List Char) : Except ScanError (List Token) :=
  (source.foldl Scan.step {}).finish

/-- The tokens of a source, in order. -/
def tokenize (source : String) : Except ScanError (List Token) :=
  if source.utf8ByteSize < Span.limit then scan source.toList
  else .error (.tooLarge source.utf8ByteSize)

end SmallLisp
