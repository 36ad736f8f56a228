import Mathlib
import Gradual.Proofs.Text.Position

/-!
# Lines of a text

The newlines of a text cut it into lines, one more than there are newlines. A line and a column locate an offset when the column
lies on the line and the offset is reached by going over the lines before, with a newline after each, and then along the line to
the column (`Locates`). The line and the column of a position, found by two walks over the text before it, locate it
(`Span.locates_lineColumnAfter`). What is located further on in the order of lines and columns is a larger offset
(`Locates.lt_of_lex`), so no two positions share their line and column (`lineColumn_identifies_offset`).
-/

namespace Gradual

/-- A newline takes one byte. -/
theorem utf8Size_newline : '\n'.utf8Size = 1 := rfl

/-- A text takes as many bytes read backwards. -/
theorem byteSize_reverse (cs : List Char) : byteSize cs.reverse = byteSize cs := by
  induction cs with
  | nil => rfl
  | cons c cs ih => simp [ih, Nat.add_comm]

/-! ## Cutting a text at its newlines -/

/-- The lines of a text: what stands before, between and after its newlines. -/
def linesOf (cs : List Char) : List (List Char) := cs.splitOn '\n'

/-- A newline ends a line. -/
theorem linesOf_append_newline (cs ds : List Char) : linesOf (cs ++ '\n' :: ds) = linesOf cs ++ linesOf ds :=
  List.splitOn_append_cons_self cs ds

/-- A text without newlines is one line. -/
theorem linesOf_of_notMem {cs : List Char} (h : '\n' ∉ cs) : linesOf cs = [cs] := List.splitOn_eq_singleton h

/-- Every text is one line, or a text, a newline and a last line. -/
theorem exists_last_line (cs : List Char) :
    '\n' ∉ cs ∨ ∃ before line, cs = before ++ '\n' :: line ∧ '\n' ∉ line := by
  by_cases h : '\n' ∈ cs
  · obtain ⟨line, before, hcs, hline⟩ := List.eq_append_cons_of_mem (List.mem_reverse.2 h)
    refine Or.inr ⟨before.reverse, line.reverse, ?_, mt List.mem_reverse.1 hline⟩
    rw [← List.reverse_reverse cs, hcs]
    simp
  · exact Or.inl h

/-- Text without a newline goes to the front of the first line. -/
theorem exists_linesOf_append {cs : List Char} (h : '\n' ∉ cs) (ds : List Char) :
    ∃ line after, linesOf ds = line :: after ∧ linesOf (cs ++ ds) = (cs ++ line) :: after := by
  by_cases hds : '\n' ∈ ds
  · obtain ⟨line, after, rfl, hline⟩ := List.eq_append_cons_of_mem hds
    have happend : '\n' ∉ cs ++ line := by simp [h, hline]
    refine ⟨line, linesOf after, ?_, ?_⟩
    · rw [linesOf_append_newline, linesOf_of_notMem hline]
      rfl
    · rw [← List.append_assoc, linesOf_append_newline, linesOf_of_notMem happend]
      rfl
  · exact ⟨ds, [], linesOf_of_notMem hds, linesOf_of_notMem (by simp [h, hds])⟩

/-- A newline ends an empty line. -/
theorem linesOf_newline (cs : List Char) : linesOf ('\n' :: cs) = [] :: linesOf cs := linesOf_append_newline [] cs

/-- Any other character belongs to the first line. -/
theorem exists_linesOf_cons {c : Char} (hc : c ≠ '\n') (cs : List Char) :
    ∃ line after, linesOf cs = line :: after ∧ linesOf (c :: cs) = (c :: line) :: after :=
  exists_linesOf_append (mt List.mem_singleton.1 hc.symm) cs

/-- A text has one line more than newlines. -/
theorem length_linesOf (cs : List Char) : (linesOf cs).length = cs.count '\n' + 1 := by
  induction cs with
  | nil => rfl
  | cons c cs ih =>
    by_cases hc : c = '\n'
    · subst hc
      rw [linesOf_newline, List.length_cons, ih, List.count_cons_self]
    · obtain ⟨line, after, hlines, hcons⟩ := exists_linesOf_cons hc cs
      rw [hcons, List.count_cons_of_ne hc, ← ih, hlines]
      rfl

/-! ## Lines and columns as offsets -/

/-- The offset where a line starts, the first line having the number zero: the bytes of the lines before it, and one newline for
each of them. -/
def lineStart (ls : List (List Char)) (n : Nat) : Nat := ((ls.take n).map byteSize).sum + n

/-- A line and a column, both counted from one, locate an offset in a text of these lines. -/
structure Locates (ls : List (List Char)) (line column offset : Nat) : Prop where
  line_pos : 1 ≤ line
  line_le : line ≤ ls.length
  column_pos : 1 ≤ column
  /-- The column lies on the line, or right behind its last character. -/
  column_le : ∃ l, ls[line - 1]? = some l ∧ column - 1 ≤ byteSize l
  offset_eq : lineStart ls (line - 1) + (column - 1) = offset

/-- The lines after the first one start behind it and its newline. -/
theorem lineStart_cons (l : List Char) (ls : List (List Char)) (n : Nat) :
    lineStart (l :: ls) (n + 1) = byteSize l + 1 + lineStart ls n := by
  simp only [lineStart, List.take_succ_cons, List.map_cons, List.sum_cons]
  omega

/-- A line starts behind the one before it and its newline. -/
theorem lineStart_succ {ls : List (List Char)} {n : Nat} {l : List Char} (h : ls[n]? = some l) :
    lineStart ls (n + 1) = lineStart ls n + byteSize l + 1 := by
  simp only [lineStart, List.take_add_one, h, Option.toList_some, List.map_append, List.sum_append, List.map_cons, List.map_nil,
    List.sum_singleton]
  omega

/-- Later lines start later. -/
theorem lineStart_mono (ls : List (List Char)) : Monotone (lineStart ls) := by
  refine monotone_nat_of_le_succ fun n => ?_
  simp only [lineStart, List.take_add_one, List.map_append, List.sum_append]
  omega

/-- Where a line starts hangs on the lines before it only. -/
theorem lineStart_append_length (before after : List (List Char)) :
    lineStart (before ++ after) before.length = lineStart before before.length := by
  simp [lineStart]

/-- The bytes of a text are those of its lines and of its newlines; counted here is one more newline, after the last line. -/
theorem lineStart_linesOf (cs : List Char) : lineStart (linesOf cs) (linesOf cs).length = byteSize cs + 1 := by
  induction cs with
  | nil => rfl
  | cons c cs ih =>
    by_cases hc : c = '\n'
    · subst hc
      rw [linesOf_newline, List.length_cons, lineStart_cons, ih, byteSize_nil, byteSize_cons, utf8Size_newline]
      omega
    · obtain ⟨line, after, hlines, hcons⟩ := exists_linesOf_cons hc cs
      rw [hlines, List.length_cons, lineStart_cons] at ih
      rw [hcons, List.length_cons, lineStart_cons, byteSize_cons, byteSize_cons]
      omega

namespace Locates

variable {ls : List (List Char)} {line column offset line' column' offset' : Nat}

/-- What comes later in the order of lines and columns is a larger offset: a line ends before the next one starts. -/
theorem lt_of_lex (h : Locates ls line column offset) (h' : Locates ls line' column' offset')
    (hlex : toLex (line, column) < toLex (line', column')) : offset < offset' := by
  obtain ⟨l, hl, hcolumn⟩ := h.column_le
  have hoffset := h.offset_eq
  have hoffset' := h'.offset_eq
  simp only [Prod.Lex.toLex_lt_toLex] at hlex
  rcases hlex with hline | ⟨rfl, hlt⟩
  · have hpos := h.line_pos
    have hnext : lineStart ls (line - 1 + 1) ≤ lineStart ls (line' - 1) := lineStart_mono ls (by omega)
    have hend := lineStart_succ hl
    omega
  · have hpos := h.column_pos
    omega

/-- Two offsets are equal exactly when their lines and columns are. -/
theorem eq_iff (h : Locates ls line column offset) (h' : Locates ls line' column' offset') :
    (line, column) = (line', column') ↔ offset = offset' := by
  constructor
  · intro heq
    obtain ⟨rfl, rfl⟩ := Prod.mk.inj heq
    exact h.offset_eq.symm.trans h'.offset_eq
  · rintro rfl
    rcases lt_trichotomy (toLex (line, column)) (toLex (line', column')) with hlex | heq | hlex
    · exact absurd (h.lt_of_lex h' hlex) (Nat.lt_irrefl _)
    · exact toLex.injective heq
    · exact absurd (h'.lt_of_lex h hlex) (Nat.lt_irrefl _)

/-- One offset is before another exactly when its line and column are. -/
theorem lt_iff (h : Locates ls line column offset) (h' : Locates ls line' column' offset') :
    toLex (line, column) < toLex (line', column') ↔ offset < offset' := by
  refine ⟨h.lt_of_lex h', fun hlt => ?_⟩
  rcases lt_trichotomy (toLex (line, column)) (toLex (line', column')) with hlex | heq | hlex
  · exact hlex
  · exact absurd ((h.eq_iff h').1 (toLex.injective heq)) (Nat.ne_of_lt hlt)
  · exact absurd (h'.lt_of_lex h hlex) (Nat.lt_asymm hlt)

end Locates

/-! ## The line and the column of a position -/

namespace Span

/-- On its first line a text ends at the column after its bytes. -/
theorem lineColumnAfter_of_notMem {cs : List Char} (h : '\n' ∉ cs) : lineColumnAfter cs = (1, byteSize cs + 1) := by
  have hline : cs.reverse.takeWhile (· ≠ '\n') = cs.reverse := by
    refine List.takeWhile_eq_self_iff.2 fun c hc => ?_
    exact decide_eq_true fun heq => h (heq ▸ List.mem_reverse.1 hc)
  rw [lineColumnAfter, hline, byteSize_reverse, List.count_eq_zero.2 h]

/-- After a newline the column counts from one again. -/
theorem lineColumnAfter_append_newline (cs : List Char) {ds : List Char} (h : '\n' ∉ ds) :
    lineColumnAfter (cs ++ '\n' :: ds) = (cs.count '\n' + 2, byteSize ds + 1) := by
  have hline : (cs ++ '\n' :: ds).reverse.takeWhile (· ≠ '\n') = ds.reverse := by
    rw [List.reverse_append, List.reverse_cons, List.append_assoc, List.takeWhile_append_of_pos]
    · simp
    · intro c hc
      exact decide_eq_true fun heq => h (heq ▸ List.mem_reverse.1 hc)
  rw [lineColumnAfter, hline, byteSize_reverse, List.count_append, List.count_cons_self, List.count_eq_zero.2 h]

/-- The line and the column after a part of a text: `before` are the lines that end in the part, and `line` is what it has of the
line that goes on behind it. -/
theorem exists_current_line (cs ds : List Char) :
    ∃ before line rest after, linesOf (cs ++ ds) = before ++ (line ++ rest) :: after ∧
      lineColumnAfter cs = (before.length + 1, byteSize line + 1) ∧
      lineStart before before.length + byteSize line = byteSize cs := by
  rcases exists_last_line cs with h | ⟨cs, line, rfl, hline⟩
  · obtain ⟨rest, after, -, hlines⟩ := exists_linesOf_append h ds
    exact ⟨[], cs, rest, after, hlines, lineColumnAfter_of_notMem h, Nat.zero_add _⟩
  · obtain ⟨rest, after, -, hlines⟩ := exists_linesOf_append hline ds
    refine ⟨linesOf cs, line, rest, after, ?_, ?_, ?_⟩
    · rw [List.append_assoc, List.cons_append, linesOf_append_newline, hlines]
    · rw [lineColumnAfter_append_newline cs hline, length_linesOf]
    · rw [lineStart_linesOf, byteSize_append, byteSize_cons, utf8Size_newline, Nat.add_assoc]

/-- The line and the column after a part of a text locate its end. -/
theorem locates_lineColumnAfter (cs ds : List Char) :
    Locates (linesOf (cs ++ ds)) (lineColumnAfter cs).1 (lineColumnAfter cs).2 (byteSize cs) := by
  obtain ⟨before, line, rest, after, hlines, hat, hsize⟩ := exists_current_line cs ds
  rw [hlines, hat]
  refine ⟨by simp, by simp, by simp, ⟨line ++ rest, by simp, by simp⟩, ?_⟩
  simpa [lineStart_append_length] using hsize

/-- At a position of a text there are a line and a column, and they locate it. -/
theorem exists_lineColumn {source : String} {k : Nat} (hk : String.Pos.Raw.IsValid source ⟨k⟩) (stop : Nat) :
    ∃ line column, (Span.mk k stop).lineColumn? source = some (line, column) ∧
      Locates (linesOf source.toList) line column k := by
  obtain ⟨cs, ds, hsource, rfl⟩ := exists_append_of_isValid hk
  refine ⟨(lineColumnAfter cs).1, (lineColumnAfter cs).2, ?_, ?_⟩
  · rw [lineColumn?, hsource, before?_append]
    rfl
  · rw [hsource]
    exact locates_lineColumnAfter cs ds

/-- Line and column identify an offset. Every position of a source has a line and a column, counted from one, that lie in the
source and from which the position is found again by counting the bytes of the lines before, their newlines, and the bytes before
the column. So different positions differ in them, and they grow with the position, the line before the column. -/
theorem lineColumn_identifies_offset (source : String) (k stop : Nat) (hk : String.Pos.Raw.IsValid source ⟨k⟩) :
    ∃ line column, (Span.mk k stop).lineColumn? source = some (line, column) ∧
      Locates (linesOf source.toList) line column k ∧
      ∀ k' stop' line' column', String.Pos.Raw.IsValid source ⟨k'⟩ →
        (Span.mk k' stop').lineColumn? source = some (line', column') →
        ((line, column) = (line', column') ↔ k = k') ∧ (toLex (line, column) < toLex (line', column') ↔ k < k') := by
  obtain ⟨line, column, hat, hlocates⟩ := exists_lineColumn hk stop
  refine ⟨line, column, hat, hlocates, ?_⟩
  intro k' stop' line' column' hk' hat'
  obtain ⟨l, c, hat'', hlocates'⟩ := exists_lineColumn hk' stop'
  obtain ⟨rfl, rfl⟩ := Prod.mk.inj (Option.some.inj (hat'.symm.trans hat''))
  exact ⟨hlocates.eq_iff hlocates', hlocates.lt_iff hlocates'⟩

/-- Below a blank line, behind a character of one byte and, further up, one of two. -/
theorem lineColumn_below_blank_line :
    String.Pos.Raw.IsValid "é\n\nab" ⟨5⟩ ∧ (Span.mk 5 6).lineColumn? "é\n\nab" = some (3, 2) ∧
      Locates (linesOf "é\n\nab".toList) 3 2 5 ∧
      ∀ k stop line column, String.Pos.Raw.IsValid "é\n\nab" ⟨k⟩ →
        (Span.mk k stop).lineColumn? "é\n\nab" = some (line, column) →
        ((3, 2) = (line, column) ↔ 5 = k) ∧ (toLex (3, 2) < toLex (line, column) ↔ 5 < k) := by
  have hsplit : "é\n\nab".toList = ['é', '\n', '\n', 'a'] ++ ['b'] := by decide
  have hvalid : String.Pos.Raw.IsValid "é\n\nab" ⟨5⟩ := isValid_of_append hsplit
  have hat : (Span.mk 5 6).lineColumn? "é\n\nab" = some (3, 2) := by decide
  obtain ⟨line, column, hat', hlocates, hothers⟩ := lineColumn_identifies_offset "é\n\nab" 5 6 hvalid
  obtain ⟨rfl, rfl⟩ := Prod.mk.inj (Option.some.inj (hat.symm.trans hat'))
  exact ⟨hvalid, hat, hlocates, hothers⟩

end Span

end Gradual
