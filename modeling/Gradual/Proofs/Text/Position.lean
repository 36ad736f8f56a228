import Gradual.Text.Span

/-!
# Positions in a text

The text before a split of a text into two ends at a position of it, and every position is found so. The span of a part of a text
fits the text: it does not end before it starts, and neither end cuts a character. So the line and the column of its start exist.
-/

namespace Gradual

/-! ## Bytes -/

@[simp] theorem byteSize_nil : byteSize [] = 0 := rfl

@[simp] theorem byteSize_cons (c : Char) (cs : List Char) : byteSize (c :: cs) = c.utf8Size + byteSize cs := rfl

@[simp] theorem byteSize_append (cs ds : List Char) : byteSize (cs ++ ds) = byteSize cs + byteSize ds := by
  induction cs with
  | nil => simp
  | cons c cs ih => simp [ih, Nat.add_assoc]

/-- A text takes the bytes of its characters. -/
theorem utf8ByteSize_ofList (cs : List Char) : (String.ofList cs).utf8ByteSize = byteSize cs := by
  induction cs with
  | nil => rfl
  | cons c cs ih => rw [String.ofList_cons, String.utf8ByteSize_append, String.utf8ByteSize_singleton, ih, byteSize_cons]

/-- A source takes the bytes of its characters. -/
theorem utf8ByteSize_eq_byteSize (source : String) : source.utf8ByteSize = byteSize source.toList := by
  rw [← utf8ByteSize_ofList, String.ofList_toList]

/-! ## Positions -/

/-- The text before a split is found at the position where it ends. -/
theorem before?_append (cs ds : List Char) : before? (cs ++ ds) (byteSize cs) = some cs := by
  induction cs with
  | nil => cases ds <;> rfl
  | cons c cs ih =>
    have hpos := c.utf8Size_pos
    obtain ⟨k, hk⟩ : ∃ k, byteSize (c :: cs) = k + 1 := ⟨byteSize (c :: cs) - 1, by simp; omega⟩
    have hle : c.utf8Size ≤ k + 1 := by rw [← hk]; simp
    have hrest : k + 1 - c.utf8Size = byteSize cs := by rw [← hk]; simp
    rw [hk, List.cons_append, before?, if_pos hle, hrest, ih]
    rfl

/-- Where a text is split there is a position of it. -/
theorem isValid_of_append {source : String} {cs ds : List Char} (h : source.toList = cs ++ ds) :
    String.Pos.Raw.IsValid source ⟨byteSize cs⟩ := by
  refine String.Pos.Raw.isValid_iff_exists_append.2 ⟨String.ofList cs, String.ofList ds, ?_, ?_⟩
  · rw [← String.ofList_append, ← h, String.ofList_toList]
  · rw [← utf8ByteSize_ofList]
    rfl

/-- A position of a text splits it. -/
theorem exists_append_of_isValid {source : String} {k : Nat} (h : String.Pos.Raw.IsValid source ⟨k⟩) :
    ∃ cs ds, source.toList = cs ++ ds ∧ byteSize cs = k := by
  obtain ⟨s, t, hs, hk⟩ := String.Pos.Raw.isValid_iff_exists_append.1 h
  refine ⟨s.toList, t.toList, ?_, ?_⟩
  · rw [hs, String.toList_append]
  · rw [← utf8ByteSize_eq_byteSize]
    exact (congrArg String.Pos.Raw.byteIdx hk).symm

/-- A span of a text, of which neither end cuts a character. -/
structure Span.Fits (s : Span) (source : String) : Prop where
  ordered : s.start ≤ s.stop
  start : String.Pos.Raw.IsValid source ⟨s.start⟩
  stop : String.Pos.Raw.IsValid source ⟨s.stop⟩

namespace Span.Fits

variable {source : String} {s : Span}

/-- The span of a part of a text. -/
theorem of_append {cs ds es : List Char} (h : source.toList = cs ++ ds ++ es) :
    Span.Fits ⟨byteSize cs, byteSize cs + byteSize ds⟩ source := by
  refine ⟨Nat.le_add_right _ _, ?_, ?_⟩
  · rw [List.append_assoc] at h
    exact isValid_of_append h
  · rw [← byteSize_append]
    exact isValid_of_append h

/-- A span that fits a text ends within it. -/
theorem stop_le (h : s.Fits source) : s.stop ≤ source.utf8ByteSize := by
  obtain ⟨cs, ds, hsource, hstop⟩ := exists_append_of_isValid h.stop
  rw [utf8ByteSize_eq_byteSize, hsource, ← hstop, byteSize_append]
  exact Nat.le_add_right _ _

/-- The line and the column of a span that fits exist. -/
theorem isSome_lineColumn? (h : s.Fits source) : (s.lineColumn? source).isSome := by
  obtain ⟨cs, ds, hsource, hstart⟩ := exists_append_of_isValid h.start
  rw [lineColumn?, hsource, ← hstart, before?_append]
  rfl

end Span.Fits

end Gradual
