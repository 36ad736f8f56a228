import Gradual.Proofs.Text.Position
import Gradual.Proofs.Token.Cuts

/-!
# String literals

How far a literal goes is found by one walk over the text and what it denotes by another. Both follow what may stand between
quotes (`Escaped`): a text in which every quote and every backslash stands after a backslash ends at the quote after it, whatever
comes then, and denotes the text with the escapes resolved (`Escaped.first`). Quoting is one way to write such a text, so what was
quoted is read back (`literal_read_back`).
-/

namespace Gradual

/-- A text with a backslash before each quote and each backslash. -/
def escape (cs : List Char) : List Char := cs.flatMap fun c => if c = '"' ∨ c = '\\' then ['\\', c] else [c]

/-- The literal of a text: the text between quotes, with a backslash before each quote and each backslash. -/
def literal (s : String) : String := "\"" ++ String.ofList (escape s.toList) ++ "\""

/-- A literal is its text with escapes, between quotes. -/
theorem toList_literal (s : String) : (literal s).toList = '"' :: escape s.toList ++ ['"'] := by
  simp [literal]

/-- Quoting is a way to write a text between quotes. -/
theorem escaped_escape (cs : List Char) : Escaped (escape cs) cs := by
  induction cs with
  | nil => exact .empty
  | cons c cs ih =>
    have hsplit : escape (c :: cs) = (if c = '"' ∨ c = '\\' then ['\\', c] else [c]) ++ escape cs := List.flatMap_cons
    by_cases hc : c = '"' ∨ c = '\\'
    · have hself : escaped c = c ∧ c ≠ '\n' := by
        rcases hc with rfl | rfl
        · exact ⟨rfl, by decide⟩
        · exact ⟨rfl, by decide⟩
      obtain ⟨hself, hnewline⟩ := hself
      rw [hsplit, if_pos hc]
      have hescape := Escaped.escape hnewline ih
      rwa [hself] at hescape
    · obtain ⟨hquote, hslash⟩ := not_or.1 hc
      rw [hsplit, if_neg hc]
      exact .plain hquote hslash ih

namespace Escaped

variable {cs ds : List Char}

/-- What is written between quotes denotes the text that it is written for. -/
theorem unescape_eq (h : Escaped cs ds) : Piece.unescape cs = ds := by
  induction h with
  | empty => rfl
  | plain _ hslash _ ih => rw [Piece.unescape_plain hslash, ih]
  | escape _ _ ih => rw [Piece.unescape_escape, ih]

/-- What is written between quotes ends at the closing quote, whatever follows. -/
theorem stringBody_eq (h : Escaped cs ds) (rest : List Char) :
    Piece.stringBody (cs ++ '"' :: rest) = (true, cs ++ ['"'], rest) := by
  induction h with
  | empty => rfl
  | @plain c cs ds hquote hslash _ ih =>
    have hescape : ∀ d es, c = '\\' → cs ++ '"' :: rest = d :: es → False := fun _ _ hc _ => hslash hc
    rw [List.cons_append, Piece.stringBody.eq_4 _ _ hquote hescape, ih]
    rfl
  | @escape c cs ds hc _ ih =>
    have hnewline : (c == '\n') = false := by simpa using hc
    rw [List.cons_append, List.cons_append, Piece.stringBody, hnewline, ih]
    rfl

/-- A quote, what is written between quotes and a quote are cut off as a literal, whatever follows. -/
theorem first (h : Escaped cs ds) (rest : List Char) :
    Piece.first '"' (cs ++ '"' :: rest) = ⟨.token (.string (String.ofList ds)), '"' :: (cs ++ ['"']), rest⟩ := by
  change Piece.string (cs ++ '"' :: rest) = _
  rw [Piece.string, h.stringBody_eq]
  simp only [List.dropLast_concat, h.unescape_eq]

end Escaped

/-- A reader before the literal of a text takes it whole, and then stands before what comes after it. -/
theorem Reader.next_literal {r : Reader} (hp : r.pending = []) {s : String} {rest : List Char}
    (hr : r.rest = (literal s).toList ++ rest) :
    ∃ r₁ : Reader, r.next = (.ok ⟨.string s, ⟨r.offset, r.offset + (literal s).utf8ByteSize⟩⟩, r₁) ∧
      r₁.pending = [] ∧ r₁.rest = rest ∧ r₁.offset = r.offset + (literal s).utf8ByteSize := by
  have hsize : (literal s).utf8ByteSize = byteSize ('"' :: (escape s.toList ++ ['"'])) := by
    rw [utf8ByteSize_eq_byteSize, toList_literal, List.cons_append]
  have hrest : r.rest = '"' :: (escape s.toList ++ '"' :: rest) := by
    rw [hr, toList_literal]
    simp
  have hfirst := (escaped_escape s.toList).first rest
  rw [String.ofList_toList] at hfirst
  have hscan : r.next = r.scan := by rw [next, hp]
  rw [hscan, scan_of_rest_cons hrest, hfirst, hsize]
  exact ⟨_, rfl, hp, rfl, rfl⟩

/-- What was quoted is read back. Before the literal of a text `s`, whatever text `r` comes after it, the first token is a string
with the payload `s` and the span of the literal. Reading goes on before `r`, and so do the tokens of the whole. -/
theorem literal_read_back (s r : String) :
    ∃ reader : Reader,
      (Reader.ofSource (literal s ++ r)).next = (.ok ⟨.string s, ⟨0, (literal s).utf8ByteSize⟩⟩, reader) ∧
        reader.pending = [] ∧ reader.rest = r.toList ∧ reader.offset = (literal s).utf8ByteSize ∧
        tokenize (literal s ++ r) = reader.drain.map (⟨.string s, ⟨0, (literal s).utf8ByteSize⟩⟩ :: ·) := by
  have htext : (Reader.ofSource (literal s ++ r)).rest = (literal s).toList ++ r.toList := by
    rw [Reader.ofSource, String.toList_append]
  have hzero : (Reader.ofSource (literal s ++ r)).offset = 0 := rfl
  obtain ⟨reader, hnext, hpending, hrest, hoffset⟩ := Reader.next_literal rfl htext
  rw [hzero, Nat.zero_add] at hnext hoffset
  refine ⟨reader, hnext, hpending, hrest, hoffset, ?_⟩
  rw [tokenize, Reader.drain_of_next hnext]
  rfl

end Gradual
