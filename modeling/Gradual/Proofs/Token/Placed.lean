import Gradual.Proofs.Text.Position
import Gradual.Proofs.Token.Stream
import Gradual.Proofs.Tree.Phrase

/-!
# Where tokens stand

A reader stands at a position of its text, and the tokens that were looked at stand before it, one after the other
(`Reader.Placed`). Taking a token keeps this, so all that can be read from a text, tokens and faults, fits the text
(`Reader.shows_ofSource`), and its tokens do not overlap (`lined_of_tokenize`). The two halves of a symbol that stands right after
a name fit too, since the colon takes one byte. A span that runs over tokens then fits as they do.
-/

namespace Gradual

/-- Tokens that stand in a text one after the other, between two offsets. -/
def Lined (source : String) : Nat → List Token → Nat → Prop
  | k, [], m => k ≤ m
  | k, t :: ts, m => k ≤ t.span.start ∧ t.span.Fits source ∧ Lined source t.span.stop ts m

namespace Lined

variable {source : String} {k m : Nat} {ts us : List Token}

/-- Tokens in a line end behind where they start. -/
theorem le (h : Lined source k ts m) : k ≤ m := by
  induction ts generalizing k with
  | nil => exact h
  | cons t ts ih =>
    obtain ⟨hk, hfits, hts⟩ := h
    exact Nat.le_trans hk (Nat.le_trans hfits.ordered (ih hts))

/-- Tokens in a line can be taken apart anywhere. -/
theorem of_append (h : Lined source k (ts ++ us) m) : ∃ l, Lined source k ts l ∧ Lined source l us m := by
  induction ts generalizing k with
  | nil => exact ⟨k, Nat.le_refl k, h⟩
  | cons t ts ih =>
    obtain ⟨hk, hfits, hrest⟩ := h
    obtain ⟨l, hts, hus⟩ := ih hrest
    exact ⟨l, ⟨hk, hfits, hts⟩, hus⟩

/-- Tokens in a line fit the text. -/
theorem fits (h : Lined source k ts m) {t : Token} (ht : t ∈ ts) : t.span.Fits source := by
  induction ts generalizing k with
  | nil => cases ht
  | cons u ts ih =>
    obtain ⟨-, hfits, hrest⟩ := h
    rcases List.mem_cons.1 ht with rfl | ht
    · exact hfits
    · exact ih hrest ht

/-- What stands before and what stands after the middle of some tokens. -/
theorem around {ms : List Token} (h : Lined source k (ts ++ ms ++ us) m) :
    ∃ l l', Lined source k ts l ∧ l ≤ l' ∧ Lined source l' us m := by
  obtain ⟨l', hleft, hus⟩ := h.of_append
  obtain ⟨l, hts, hms⟩ := hleft.of_append
  exact ⟨l, l', hts, hms.le, hus⟩

end Lined

/-- A span that runs over tokens fits where they do, and lies between the offsets that they lie between. -/
theorem Covers.fits {source : String} {s : Span} {ts : List Token} (h : Covers s ts) {k m : Nat} (hl : Lined source k ts m) :
    k ≤ s.start ∧ s.Fits source ∧ s.stop ≤ m := by
  induction h generalizing k m with
  | token t => exact hl
  | @join s s' ts us _ ms _ ih ih' =>
    obtain ⟨l, l', hts, hle, hus⟩ := hl.around
    obtain ⟨hk, hfits, hstop⟩ := ih hts
    obtain ⟨hk', hfits', hstop'⟩ := ih' hus
    have hordered := hfits.ordered
    have hordered' := hfits'.ordered
    have hjoin : s.join s' = ⟨s.start, s'.stop⟩ := by
      simp only [Span.join, Span.mk.injEq]
      omega
    rw [hjoin]
    exact ⟨hk, ⟨by simp only; omega, hfits.start, hfits'.stop⟩, hstop'⟩
  | @ends s s' ts us _ ms _ ih ih' =>
    obtain ⟨l, l', hts, hle, hus⟩ := hl.around
    obtain ⟨hk, hfits, hstop⟩ := ih hts
    obtain ⟨hk', hfits', hstop'⟩ := ih' hus
    have hordered := hfits.ordered
    have hordered' := hfits'.ordered
    exact ⟨hk, ⟨by simp only; omega, hfits.start, hfits'.stop⟩, hstop'⟩

/-- A symbol begins with its colon. -/
theorem Piece.text_first_of_symbol {c : Char} {cs : List Char} {n : String} (h : (first c cs).lexeme = .token (.symbol n)) :
    ∃ ds, (first c cs).text = ':' :: ds := by
  have hc : c = ':' := by
    unfold first number name string slash pair single wordKind at h
    grind
  obtain ⟨d, ds, htext⟩ := List.exists_cons_of_ne_nil (text_first_ne_nil c cs)
  have hsplit := first_append c cs
  rw [htext, List.cons_append] at hsplit
  obtain ⟨hd, -⟩ := List.cons.inj hsplit
  exact ⟨ds, by rw [htext, hd, hc]⟩

namespace Reader

variable {source : String} {k : Nat} {r r' : Reader}

/-- A reader that stands at a position of a text, after the tokens that were looked at, which stand one after the other from an
offset on. -/
structure Placed (source : String) (k : Nat) (r : Reader) : Prop where
  rest : ∃ cs, source.toList = cs ++ r.rest ∧ byteSize cs = r.offset
  pending : Lined source k r.pending r.offset

/-- A reader at the start of a source stands at a position of it. -/
theorem placed_ofSource (source : String) : Placed source 0 (ofSource source) := ⟨⟨[], rfl, rfl⟩, Nat.le_refl 0⟩

/-- What a reader gives: a token that fits the text, or a fault that does. -/
def Fitting (source : String) (k : Nat) : Except Fault Token × Reader → Prop
  | (.ok t, r') => k ≤ t.span.start ∧ t.span.Fits source ∧ Placed source t.span.stop r'
  | (.error f, r') => f.span.Fits source ∧ Placed source f.span.stop r'

/-- A piece of the text at a reader's position fits the text, and the reader after it stands behind it. -/
theorem Placed.piece {c : Char} {cs : List Char} (h : Placed source k r) (hr : r.rest = c :: cs) :
    Span.Fits ⟨r.offset, r.offset + byteSize (Piece.first c cs).text⟩ source ∧
      ∃ ds, source.toList = ds ++ (r.skip (Piece.first c cs)).rest ∧ byteSize ds = (r.skip (Piece.first c cs)).offset := by
  obtain ⟨ds, hsource, hoffset⟩ := h.rest
  have hsplit : source.toList = ds ++ (Piece.first c cs).text ++ (Piece.first c cs).rest := by
    rw [hsource, hr, ← Piece.first_append c cs, List.append_assoc]
  rw [← hoffset]
  refine ⟨.of_append hsplit, ds ++ (Piece.first c cs).text, hsplit, ?_⟩
  rw [byteSize_append, hoffset]
  rfl

/-- The halves of a symbol that stands right after a name fit the text. -/
theorem Placed.halves {c : Char} {cs : List Char} {n : String} (h : Placed source k r) (hr : r.rest = c :: cs)
    (hlex : (Piece.first c cs).lexeme = .token (.symbol n)) :
    Span.Fits ⟨r.offset, r.offset + 1⟩ source ∧
      Span.Fits ⟨r.offset + 1, r.offset + byteSize (Piece.first c cs).text⟩ source := by
  obtain ⟨ds, hsource, hoffset⟩ := h.rest
  obtain ⟨es, htext⟩ := Piece.text_first_of_symbol hlex
  have hcolon : ':'.utf8Size = 1 := rfl
  have hsplit : source.toList = ds ++ [':'] ++ (es ++ (Piece.first c cs).rest) := by
    rw [hsource, hr, ← Piece.first_append c cs, htext]
    simp
  have hfirst : Span.Fits ⟨byteSize ds, byteSize ds + byteSize [':']⟩ source := .of_append hsplit
  rw [← List.append_assoc] at hsplit
  have hsecond : Span.Fits ⟨byteSize (ds ++ [':']), byteSize (ds ++ [':']) + byteSize es⟩ source := .of_append hsplit
  rw [htext, ← hoffset]
  simpa [hcolon, Nat.add_assoc] using And.intro hfirst hsecond

/-- A token that is scanned fits the text, and the reader stands behind it. -/
theorem Placed.scan (h : Placed source k r) (hp : r.pending = []) : Fitting source k r.scan := by
  have hk : k ≤ r.offset := by simpa [hp, Lined] using h.pending
  fun_induction Reader.scan r with
  | case1 r hr =>
    obtain ⟨cs, hsource, hoffset⟩ := h.rest
    have hvalid : String.Pos.Raw.IsValid source ⟨r.offset⟩ := hoffset ▸ isValid_of_append hsource
    exact ⟨hk, ⟨Nat.le_refl _, hvalid, hvalid⟩, h.rest, by rw [hp]; exact Nat.le_refl _⟩
  | case2 r c cs hr p hlex ih =>
    obtain ⟨hfits, hrest⟩ := h.piece hr
    have hle : k ≤ (r.skip p).offset := Nat.le_trans hk hfits.ordered
    exact ih ⟨hrest, by rw [show (r.skip p).pending = [] from hp]; exact hle⟩ hp hle
  | case3 r c cs hr p span hlex =>
    obtain ⟨hfits, hrest⟩ := h.piece hr
    exact ⟨hfits, hrest, by rw [show (r.skip p).pending = [] from hp]; exact Nat.le_refl _⟩
  | case4 r c cs hr p span kind hlex t r' hclass =>
    obtain ⟨hfits, hrest⟩ := h.piece hr
    have hpending : (r.skip p).pending = [] := hp
    unfold classify at hclass
    split at hclass
    · split at hclass
      · obtain ⟨rfl, rfl⟩ := Prod.mk.inj hclass
        obtain ⟨hcolon, hname⟩ := h.halves hr hlex
        refine ⟨hk, hcolon, hrest, ?_⟩
        simp only [hpending]
        exact ⟨Nat.le_refl _, hname, Nat.le_refl _⟩
      · obtain ⟨rfl, rfl⟩ := Prod.mk.inj hclass
        exact ⟨hk, hfits, hrest, by simp only [hpending]; exact Nat.le_refl _⟩
    · obtain ⟨rfl, rfl⟩ := Prod.mk.inj hclass
      exact ⟨hk, hfits, hrest, by simp only [hpending]; exact Nat.le_refl _⟩
    · obtain ⟨rfl, rfl⟩ := Prod.mk.inj hclass
      exact ⟨hk, hfits, hrest, by simp only [hpending]; exact Nat.le_refl _⟩

/-- Taking a token or a fault keeps a reader placed. -/
theorem Placed.next (h : Placed source k r) : Fitting source k r.next := by
  unfold Reader.next
  split
  · rename_i t ts hp
    have hpending := h.pending
    rw [hp] at hpending
    obtain ⟨hk, hfits, hts⟩ := hpending
    exact ⟨hk, hfits, h.rest, hts⟩
  · rename_i hp
    exact h.scan hp

/-- The spans of the tokens and faults that can be read from a reader have a property. -/
def Shows (V : Span → Prop) (r : Reader) : Prop :=
  ∀ ts r₁, Reads r ts r₁ → (∀ t r₂, r₁.next = (.ok t, r₂) → V t.span) ∧ ∀ f r₂, r₁.next = (.error f, r₂) → V f.span

/-- Every reader shows spans. -/
theorem Shows.all (r : Reader) : Shows (fun _ => True) r := fun _ _ _ => ⟨fun _ _ _ => trivial, fun _ _ _ => trivial⟩

/-- What a reader shows, it shows further on. -/
theorem Shows.of_reads {V : Span → Prop} {ts : List Token} (h : Shows V r) (hr : Reads r ts r') : Shows V r' := by
  intro us r₁ hus
  exact h (ts ++ us) r₁ (hr.trans hus)

/-- All that a placed reader shows fits the text. -/
theorem Placed.shows (h : Placed source k r) : Shows (·.Fits source) r := by
  intro ts r₁ hr
  induction hr generalizing k with
  | same hn =>
    rw [hn]
    refine ⟨?_, ?_⟩
    · intro t r₂ ht
      have hnext := h.next
      rw [ht] at hnext
      exact hnext.2.1
    · intro f r₂ hf
      have hnext := h.next
      rw [hf] at hnext
      exact hnext.1
  | take ht _ _ ih =>
    have hnext := h.next
    rw [ht] at hnext
    exact ih hnext.2.2

/-- All that can be read from a text fits it. -/
theorem shows_ofSource (source : String) : Shows (·.Fits source) (ofSource source) := (placed_ofSource source).shows

/-- The first fault ahead of a reader is among what can be read from it. -/
theorem Shows.fault {V : Span → Prop} {f : Fault} (h : Shows V r) (hd : r.drain = .error f) : V f.span := by
  fun_induction drain r with
  | case1 r g r₁ hg =>
    cases hd
    exact (h [] r (.refl r)).2 f r₁ hg
  | case2 => cases hd
  | case3 r t r₁ ht hk ih =>
    refine ih (h.of_reads (.single ht hk)) ?_
    cases hr : r₁.drain with
    | ok ts =>
      rw [hr] at hd
      cases hd
    | error g =>
      rw [hr] at hd
      cases hd
      rfl

/-- The tokens ahead of a placed reader stand in a line. -/
theorem Placed.lined {ts : List Token} (h : Placed source k r) (hd : r.drain = .ok ts) : ∃ m, Lined source k ts m := by
  induction ts generalizing k r with
  | nil => exact absurd hd drain_ne_nil
  | cons t ts ih =>
    obtain ⟨u, r₁, hu, hrest⟩ := next_of_drain hd
    have hnext := h.next
    rw [hu] at hnext
    obtain ⟨hk, hfits, hplaced⟩ := hnext
    rcases hrest with ⟨-, he⟩ | ⟨-, us, hus, he⟩
    · obtain ⟨rfl, rfl⟩ := List.cons.inj he
      exact ⟨_, hk, hfits, Nat.le_refl _⟩
    · obtain ⟨rfl, rfl⟩ := List.cons.inj he
      obtain ⟨m, hm⟩ := ih hplaced hus
      exact ⟨m, hk, hfits, hm⟩

end Reader

/-- The tokens of a text stand one after the other. -/
theorem lined_of_tokenize {source : String} {ts : List Token} (h : tokenize source = .ok ts) : ∃ m, Lined source 0 ts m :=
  (Reader.placed_ofSource source).lined h

/-- A span of a tree that the tokens of a text write fits the text. -/
theorem Spells.fits {source : String} {ps : List Phrase} {ts : List Token} {s : Span} {k m : Nat} (h : Spells ps ts)
    (hl : Lined source k ts m) (hs : s ∈ Phrase.spansOf ps) : s.Fits source := by
  obtain ⟨us, ⟨vs, ws, rfl⟩, hcovers⟩ := h.covers hs
  obtain ⟨l₂, hleft, -⟩ := hl.of_append
  obtain ⟨l₁, -, hus⟩ := hleft.of_append
  exact (hcovers.fits hus).2.1

end Gradual
