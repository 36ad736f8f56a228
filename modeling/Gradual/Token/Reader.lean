import Gradual.Token.Piece

/-!
# Readers: a source text read one token at a time

A reader holds the text not yet read, where it stands, and the tokens that were looked at and not taken. A symbol that stands
right after a name is no symbol: `x:Number` is a name, a colon and a name, so reading it yields the colon and keeps the name for
later. The end of the text can be read any number of times. A fault is passed over when it is reported, also by a look ahead.

`Reader.size` bounds what is left: every token taken makes it smaller, the end of the text apart, which is why reading a source
to its end stops.
-/

namespace Gradual

/-- A source text that is being read. `nameEnd` is where the last token read from the text ended, if that token was a name. -/
structure Reader where
  source : String
  rest : List Char
  offset : Nat
  nameEnd : Option Nat
  pending : List Token
  deriving DecidableEq

namespace Reader

/-- A reader at the start of a source. -/
def ofSource (source : String) : Reader := ⟨source, source.toList, 0, none, []⟩

/-- The reader after a token was read from its text: a symbol right after a name is split, its name becoming pending. -/
def classify (r : Reader) (kind : Kind) (span : Span) : Token × Reader :=
  match kind with
  | .symbol s =>
    if r.nameEnd = some span.start then
      (⟨.mark .colon, ⟨span.start, span.start + 1⟩⟩,
        { r with nameEnd := some span.stop, pending := ⟨.name s, ⟨span.start + 1, span.stop⟩⟩ :: r.pending })
    else (⟨kind, span⟩, { r with nameEnd := none })
  | .name _ => (⟨kind, span⟩, { r with nameEnd := some span.stop })
  | _ => (⟨kind, span⟩, { r with nameEnd := none })

/-- The reader after the first piece of its text. -/
def skip (r : Reader) (p : Piece) : Reader := { r with rest := p.rest, offset := r.offset + byteSize p.text }

/-- The next token of the text, whatever is pending, after the layout before it. -/
def scan (r : Reader) : Except Fault Token × Reader :=
  match _h : r.rest with
  | [] => (.ok ⟨.eof, ⟨r.offset, r.offset⟩⟩, r)
  | c :: cs =>
    let p := Piece.first c cs
    let span : Span := ⟨r.offset, r.offset + byteSize p.text⟩
    match p.lexeme with
    | .layout => scan (r.skip p)
    | .fault => (.error ⟨String.ofList p.text, span⟩, r.skip p)
    | .token kind =>
      let (t, r') := (r.skip p).classify kind span
      (.ok t, r')
termination_by r.rest.length
decreasing_by
  rw [‹r.rest = c :: cs›]
  exact Piece.rest_length_lt c cs

/-- The next token, taken. -/
def next (r : Reader) : Except Fault Token × Reader :=
  match r.pending with
  | t :: ts => (.ok t, { r with pending := ts })
  | [] => r.scan

/-- The next token, left in place. -/
def peek (r : Reader) : Except Fault Token × Reader :=
  match r.pending with
  | t :: _ => (.ok t, r)
  | [] =>
    match r.scan with
    | (.ok t, r') => (.ok t, { r' with pending := t :: r'.pending })
    | (.error f, r') => (.error f, r')

/-- Whether the next token is like `kind`. -/
def check (r : Reader) (kind : Kind) : Except Fault Bool × Reader :=
  match r.peek with
  | (.ok t, r') => (.ok (t.kind.isLike kind), r')
  | (.error f, r') => (.error f, r')

/-- Takes the next token if it is like `kind`, and says whether it did. -/
def accept (r : Reader) (kind : Kind) : Except Fault Bool × Reader :=
  match r.peek with
  | (.ok t, r') => if t.kind.isLike kind then (.ok true, r'.next.2) else (.ok false, r')
  | (.error f, r') => (.error f, r')

/-- What is left to read: each character can become at most two tokens. -/
def size (r : Reader) : Nat := r.pending.length + 2 * r.rest.length

/-! ## Reading shrinks what is left -/

/-- Taking a token off the text leaves fewer characters and at most one more pending token. -/
theorem classify_size (r : Reader) (kind : Kind) (span : Span) : (r.classify kind span).2.size ≤ r.size + 1 := by
  unfold classify
  split
  · split <;> simp [size]; omega
  · simp [size]
  · simp [size]

/-- Passing over a piece makes a reader smaller by two at least. -/
theorem skip_size {r : Reader} {c : Char} {cs : List Char} (h : r.rest = c :: cs) :
    (r.skip (Piece.first c cs)).size + 2 ≤ r.size := by
  have := Piece.rest_length_lt c cs
  simp only [size, skip, h] at *
  omega

/-- Reading from the text leaves a smaller reader, unless the text is at its end. -/
theorem scan_size (r : Reader) :
    r.scan.2.size < r.size ∨ (∃ t, r.scan.1 = .ok t ∧ t.kind = .eof) ∧ r.scan.2.size ≤ r.size := by
  fun_induction scan r with
  | case1 r h => exact .inr ⟨⟨_, rfl, rfl⟩, Nat.le_refl _⟩
  | case2 r c cs h p hp ih =>
    have : (r.skip p).size + 2 ≤ r.size := skip_size h
    rcases ih with ih | ⟨ih, ih'⟩
    · exact .inl (by omega)
    · exact .inr ⟨ih, by omega⟩
  | case3 r c cs h p span hp =>
    have : (r.skip p).size + 2 ≤ r.size := skip_size h
    exact .inl (by simp only; omega)
  | case4 r c cs h p span kind hp t r' hc =>
    have : (r.skip p).size + 2 ≤ r.size := skip_size h
    have hs := classify_size (r.skip p) kind span
    rw [hc] at hs
    exact .inl (by simp only at *; omega)

/-- Taking a token leaves a smaller reader, unless the token is the end of the text. -/
theorem next_size {r r' : Reader} {t : Token} (h : r.next = (.ok t, r')) (ht : t.kind ≠ .eof) : r'.size < r.size := by
  unfold next at h
  split at h
  · rename_i hp
    simp only [Prod.mk.injEq] at h
    rw [← h.2]
    simp [size, hp]
  · rcases scan_size r with hs | ⟨⟨t', ht', he⟩, _⟩
    · rwa [h] at hs
    · rw [h] at ht'
      exact absurd (Except.ok.inj ht' ▸ he) ht

/-- Every token up to and with the end of the text, or the first fault. -/
def drain (r : Reader) : Except Fault (List Token) :=
  match _h : r.next with
  | (.error f, _) => .error f
  | (.ok t, r') => if _ht : t.kind = .eof then .ok [t] else (drain r').map (t :: ·)
termination_by r.size
decreasing_by exact next_size ‹_› ‹_›

end Reader

/-- The tokens of a source, the end of the text with them, or its first fault. -/
def tokenize (source : String) : Except Fault (List Token) := (Reader.ofSource source).drain

/-- The dump of a source's tokens, one on each line. -/
def dumpTokens (source : String) : Except Fault String :=
  (tokenize source).map fun ts => String.join (ts.map Token.dump)

end Gradual
