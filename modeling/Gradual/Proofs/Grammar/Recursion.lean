import Gradual.Proofs.Grammar.Errors

/-!
# The recursion of the grammar

The grammar is defined under bounds, on how often a loop goes round and on how deep productions nest. Here the bounds go away. A
production uses the parsers inside it only after it has taken a token, so two grammars that do the same below some number of
tokens ahead do the same below the next number. From this follow the equations in which the grammar is written down: its parsers
are the productions over themselves, and no other parsers are. The number of tokens that are left before the end of the text is
what falls on the way down.
-/

namespace Gradual

open Gradual.Parser

/-- Two parsers do the same wherever fewer than `n` tokens are ahead. -/
def Parser.SameBelow {α : Type} (n : Nat) (p q : Parser α) : Prop := ∀ r : Reader, r.left < n → p r = q r

namespace Parser.SameBelow

variable {α : Type} {V : Span → Prop} {n : Nat} {p q s : Parser α}

/-- Parsers that are alike do the same. -/
theorem of_alike (h : Alike (fun _ => True) n p q) : SameBelow n p q := fun r hn => (h r (.all r) hn).1

/-- What does the same as a parser that fares well does so too. -/
theorem alike (h : SameBelow n p q) (hp : Alike V n p p) : Alike V n p q := fun r hv hn => ⟨h r hn, (hp r hv hn).2⟩

/-- With nothing ahead there is nothing to compare. -/
theorem none_ahead : SameBelow 0 p q := fun _ hn => absurd hn (Nat.not_lt_zero _)

/-- Two parsers that do the same as a third do the same. -/
theorem of_both (hq : SameBelow n p q) (hs : SameBelow n p s) : SameBelow n q s := fun r hn => (hq r hn).symm.trans (hs r hn)

/-- Parsers that do the same whatever is ahead are equal. -/
theorem eq (h : ∀ n, SameBelow n p q) : p = q := funext fun r => h (r.left + 1) r (Nat.lt_succ_self _)

end Parser.SameBelow

namespace Grammar

variable {n : Nat} {g g' g'' : Nested}

/-! ## Blocks, expressions and statements -/

/-- Two grammars do the same wherever fewer than `n` tokens are ahead. -/
structure Nested.SameBelow (n : Nat) (g g' : Nested) : Prop where
  expr (least : Nat) : Parser.SameBelow n (g.expr least) (g'.expr least)
  unary : Parser.SameBelow n g.unary g'.unary
  stmt : Parser.SameBelow n g.stmt g'.stmt

namespace Nested.SameBelow

/-- Grammars that are alike do the same. -/
theorem of_alike (h : g.Alike (fun _ => True) n g') : g.SameBelow n g' :=
  ⟨fun least => .of_alike (h.expr least), .of_alike h.unary, .of_alike h.stmt⟩

/-- A grammar that does the same as one that is alike is alike. -/
theorem alike {V : Span → Prop} (h : g.SameBelow n g') (hg : g.Alike V n g) : g.Alike V n g' :=
  ⟨fun least => (h.expr least).alike (hg.expr least), h.unary.alike hg.unary, h.stmt.alike hg.stmt⟩

/-- With nothing ahead there is nothing to compare. -/
theorem none_ahead : g.SameBelow 0 g' := ⟨fun _ => .none_ahead, .none_ahead, .none_ahead⟩

/-- Two grammars that do the same as a third do the same. -/
theorem of_both (h : g.SameBelow n g') (h' : g.SameBelow n g'') : g'.SameBelow n g'' :=
  ⟨fun least => (h.expr least).of_both (h'.expr least), h.unary.of_both h'.unary, h.stmt.of_both h'.stmt⟩

/-- Grammars that do the same whatever is ahead are equal. -/
theorem eq (h : ∀ n, g.SameBelow n g') : g = g' := by
  have hexpr : g.expr = g'.expr := funext fun least => Parser.SameBelow.eq fun n => (h n).expr least
  have hunary : g.unary = g'.unary := Parser.SameBelow.eq fun n => (h n).unary
  have hstmt : g.stmt = g'.stmt := Parser.SameBelow.eq fun n => (h n).stmt
  cases g
  cases g'
  congr

end Nested.SameBelow

/-- The whole grammar reads what it should. -/
theorem reads_whole : whole.Reads :=
  ⟨fun h => (reads_within _).expr h, fun h => (reads_within _).unary h, writes_stmt⟩

/-- Nested so deep, the grammar does what the whole grammar does below so many tokens. -/
theorem alike_within_whole {V : Span → Prop} (n : Nat) : Nested.Alike V n (.within n) whole := by
  have hmin {r : Reader} (hn : r.left < n) : r.left < min n (r.size + 1) := by
    have hsize := r.left_le_size
    omega
  exact ⟨fun least r hv hn => (alike_within n (r.size + 1)).expr least r hv (hmin hn),
    fun r hv hn => (alike_within n (r.size + 1)).unary r hv (hmin hn),
    fun r hv hn => (alike_within n (r.size + 1)).stmt r hv (hmin hn)⟩

/-- The parsers of the grammar are its productions over themselves: nested one deeper, the grammar is a step over the grammar
nested so deep, and both do as the whole grammar. -/
theorem step_whole : whole.step = whole := by
  refine Nested.SameBelow.eq ?_
  intro n
  cases n with
  | zero => exact .none_ahead
  | succ n =>
    have hstep : (Nested.within (n + 1)).SameBelow (n + 1) whole.step := .of_alike (.step (reads_within n) (alike_within_whole n))
    exact hstep.of_both (.of_alike (alike_within_whole (n + 1)))

/-- Parsers that do as the grammar with fewer than some number of tokens ahead give productions that do with one more. -/
theorem sameBelow_whole_step (h : whole.SameBelow n g) : whole.SameBelow (n + 1) g.step := by
  have hstep := Nested.SameBelow.of_alike (.step reads_whole (h.alike alike_whole))
  rw [step_whole] at hstep
  exact hstep

/-- No other parsers are their own productions. -/
theorem eq_whole_of_step (h : g.step = g) : g = whole := by
  refine (Nested.SameBelow.eq ?_).symm
  intro n
  induction n with
  | zero => exact .none_ahead
  | succ n ih =>
    rw [← h]
    exact sameBelow_whole_step ih

/-! ## Annotations -/

/-- An annotation is read by the production of annotations over itself. -/
theorem annotationStep_annotation : annotationStep annotation = annotation := by
  funext r
  have hself : Alike (fun _ => True) r.size annotation (annotationWithin r.size) := by
    intro r' hv hn
    have hsize := r'.left_le_size
    exact alike_annotationWithin (n := r.size) _ _ r' hv (by omega)
  exact (alike_annotationStep hself writes_annotation r (.all r) (Nat.lt_succ_of_le r.left_le_size)).1

/-- A parser that does what annotations do does so with one token more ahead, after a step. -/
theorem sameBelow_annotation_step {p : Parser Annotation} (h : SameBelow n annotation p) :
    SameBelow (n + 1) annotation (annotationStep p) := by
  have hstep := SameBelow.of_alike (alike_annotationStep (h.alike alike_annotation) writes_annotation)
  rw [Grammar.annotationStep_annotation] at hstep
  exact hstep

/-- Only the parser of annotations is its own step. -/
theorem eq_annotation_of_step {p : Parser Annotation} (h : annotationStep p = p) : p = annotation := by
  refine (SameBelow.eq ?_).symm
  intro n
  induction n with
  | zero => exact .none_ahead
  | succ n ih =>
    rw [← h]
    exact sameBelow_annotation_step ih

end Grammar

end Gradual
