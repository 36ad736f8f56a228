/-!
# Spans: half-open ranges of byte offsets into a text

A source text is a list of characters, and every position in it is the number of bytes that stand before it in UTF-8. A span
names a range of such positions. The line and column of a span are those of its start, both counted from one, the column in
bytes; they exist exactly when the start does not cut a character.
-/

namespace Gradual

/-- The bytes a list of characters takes in UTF-8. -/
def byteSize (cs : List Char) : Nat := cs.foldr (fun c n => c.utf8Size + n) 0

/-- The characters before byte offset `k`: all of them when `k` lies past the end, and none when `k` cuts a character. -/
def before? : List Char → Nat → Option (List Char)
  | _, 0 => some []
  | [], _ + 1 => some []
  | c :: cs, k + 1 => if c.utf8Size ≤ k + 1 then (before? cs (k + 1 - c.utf8Size)).map (c :: ·) else none

/-- A range of byte offsets, from `start` up to and without `stop`. -/
structure Span where
  start : Nat
  stop : Nat
  deriving DecidableEq

namespace Span

/-- The smallest span that covers both. -/
def join (a b : Span) : Span := ⟨min a.start b.start, max a.stop b.stop⟩

/-- The number of bytes covered; a span that ends before it starts covers none. -/
def size (s : Span) : Nat := s.stop - s.start

/-- A span is empty when it covers no byte. -/
def isEmpty (s : Span) : Bool := s.size == 0

/-- The written form of a span, `start..stop`. -/
def text (s : Span) : String := toString s.start ++ ".." ++ toString s.stop

/-- The line and column after a text: one more than its newlines, and one more than the bytes after the last of them. -/
def lineColumnAfter (cs : List Char) : Nat × Nat :=
  (cs.count '\n' + 1, byteSize (cs.reverse.takeWhile (· ≠ '\n')) + 1)

/-- The line and column of the start of a span; a start past the end counts as the end, and one inside a character has none. -/
def lineColumn? (s : Span) (source : String) : Option (Nat × Nat) :=
  (before? source.toList s.start).map lineColumnAfter

end Span

end Gradual
