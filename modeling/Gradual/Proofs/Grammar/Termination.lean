import Mathlib
import Gradual.Proofs.Grammar.Recursion

/-!
# The grammar always comes to an end

Every round of a loop takes a token, and at the end of the text there is none to take: there a loop stops or fails. So a loop goes
round at most as often as there are tokens ahead, and productions nest at most so deep. A bound above the number of tokens that
are left is never reached, and which bound it is does not matter.
-/

namespace Gradual

open Reader (Reads)

namespace Grammar

open Gradual.Parser

variable {n : Nat}

/-! ## Loops -/

/-- What is read by the loops of the grammar that go on as long as there is another item. -/
inductive Repeated : {α : Type} → Parser (Option α) → Prop
  | imports : Repeated importItem
  | path : Repeated pathItem
  | stmts : Repeated stmtItem
  | block : Repeated (blockItem whole)
  | branches : Repeated (elifItem whole)
  | entries : Repeated (mapItem whole)
  | methods : Repeated (methodItem whole)
  | implementations : Repeated (implementationItem whole)

/-- What is read by the loops of the grammar that go on as long as there is another comma. -/
inductive Separated : {α : Type} → Parser α → Prop
  | generics : Separated expectName
  | types : Separated annotation
  | params : Separated param
  | lambdaParams : Separated lambdaParam
  | exprs : Separated (whole.expr 0)
  | bindings : Separated (binding whole)
  | loopVariables : Separated loopVariable

variable {α : Type}

/-- Every repeated item takes a token. -/
theorem Repeated.takes {item : Parser (Option α)} (h : Repeated item) {r r' : Reader} {a : α} (ha : item r = .ok (some a) r') :
    ∃ t ts, Reads r (t :: ts) r' := by
  cases h with
  | imports => exact (writes_importItem _ _ _ ha).1.takes rfl
  | path => exact (writes_pathItem _ _ _ ha).1.takes rfl
  | stmts => exact takes_stmtItem _ _ _ ha
  | block => exact takes_blockItem reads_whole _ _ _ ha
  | branches => exact (writes_elifItem reads_whole _ _ _ ha).1.takes rfl
  | entries => exact (writes_mapItem reads_whole _ _ _ ha).1.takes rfl
  | methods => exact (writes_methodItem reads_whole _ _ _ ha).1.takes rfl
  | implementations => exact (writes_implementationItem reads_whole _ _ _ ha).1.takes rfl

/-- Every repeated item reports only what it is shown. -/
theorem Repeated.alike {V : Span → Prop} {item : Parser (Option α)} (h : Repeated item) : Alike V n item item := by
  cases h with
  | imports => exact alike_importItem
  | path => exact alike_pathItem
  | stmts => exact alike_stmtItem
  | block => exact alike_blockItem alike_whole
  | branches => exact alike_elifItem reads_whole alike_whole
  | entries => exact alike_mapItem alike_whole
  | methods => exact alike_methodItem reads_whole alike_whole
  | implementations => exact alike_implementationItem reads_whole alike_whole

/-- Every item between commas takes a token. -/
theorem Separated.takes {item : Parser α} (h : Separated item) : Takes item := by
  cases h with
  | generics => exact takes_expectName
  | types => exact takes_of_phrase writes_annotation
  | params => exact takes_of_writes writes_param fun _ => rfl
  | lambdaParams => exact takes_of_writes writes_lambdaParam fun _ => rfl
  | exprs => exact takes_expr reads_whole 0
  | bindings => exact takes_of_writes (writes_binding reads_whole) fun _ => rfl
  | loopVariables => exact takes_of_writes writes_loopVariable fun _ => rfl

/-- Every item between commas reports only what it is shown. -/
theorem Separated.alike {V : Span → Prop} {item : Parser α} (h : Separated item) : Alike V n item item := by
  cases h with
  | generics => exact alike_expectName
  | types => exact alike_annotation
  | params => exact alike_param
  | lambdaParams => exact alike_lambdaParam
  | exprs => exact alike_whole.expr 0
  | bindings => exact alike_binding alike_whole
  | loopVariables => exact alike_loopVariable

/-- A parser that makes progress: where it succeeds it has taken at least one token, never the end of the text, and less tokens
are left. -/
def Progresses (p : Parser α) : Prop :=
  ∀ r a r', p r = .ok a r' → (∃ t ts, Reads r (t :: ts) r') ∧ r'.left < r.left

/-- A statement takes a token. -/
theorem takes_stmt : Takes whole.stmt := fun _ _ _ h => takes_of_stmt (reads_whole.stmt _ _ _ h).1

/-- An operand takes a token. -/
theorem takes_unary : Takes whole.unary := fun _ _ _ h => (reads_whole.unary h).1.takes rfl

/-- A parser that takes a token leaves less to read. -/
theorem progresses_of_takes {p : Parser α} (h : Takes p) : Progresses p := by
  intro r a r' hr
  obtain ⟨t, ts, hts⟩ := h r a r' hr
  have hleft := hts.left_eq
  rw [List.length_cons] at hleft
  exact ⟨⟨t, ts, hts⟩, by omega⟩

end Grammar

/-- The end of the text comes next. -/
def Reader.AtEnd (r : Reader) : Prop := ∃ t r₁, r.next = (.ok t, r₁) ∧ t.kind = .eof

namespace Reader.AtEnd

variable {r r' : Reader}

/-- A look ahead stays at the end of the text. -/
theorem of_same (h : r.AtEnd) (hs : Reads r [] r') : r'.AtEnd := by
  obtain ⟨t, r₁, hr, ht⟩ := h
  exact ⟨t, r₁, hs.next_eq.trans hr, ht⟩

/-- The token that comes next at the end of the text is the end. -/
theorem kind_eq {t : Token} {r₁ : Reader} (h : r.AtEnd) (hr : r.next = (.ok t, r₁)) : t.kind = .eof := by
  obtain ⟨u, r₂, hu, hkind⟩ := h
  rw [hr] at hu
  cases hu
  exact hkind

/-- At the end of the text there is nothing to take. -/
theorem not_reads {t : Token} {ts : List Token} (h : r.AtEnd) : ¬ Reads r (t :: ts) r' := by
  obtain ⟨u, r₁, hr, hu⟩ := h
  intro hts
  have hleft := hts.left_eq
  rw [left_of_next hr, if_pos hu, List.length_cons] at hleft
  omega

end Reader.AtEnd

namespace Grammar

open Gradual.Parser

/-! ## At the end of the text -/

variable {α : Type} {r r' : Reader}

/-- At the end of the text a loop finds no item. -/
theorem Repeated.eq_nil {item : Parser (Option α)} (h : Repeated item) (hr : r.AtEnd) {m : Nat} {as : List α}
    (has : many item m r = .ok as r') : as = [] := by
  cases m with
  | zero => exact absurd has tooDeep_ne_ok
  | succ m =>
    obtain ⟨o, r₁, ho, has⟩ := bind_ok_iff.1 has
    cases o with
    | none => exact (pure_ok_iff.1 has).1.symm
    | some a =>
      obtain ⟨t, ts, hts⟩ := h.takes ho
      exact absurd hts hr.not_reads

/-- At the end of the text items with commas in between are not found. -/
theorem Separated.commaSeparated_ne {item : Parser α} (h : Separated item) (hr : r.AtEnd) {m : Nat} {as : List α} :
    commaSeparated item m r ≠ .ok as r' := by
  intro has
  cases m with
  | zero => exact absurd has tooDeep_ne_ok
  | succ m =>
    obtain ⟨a, r₁, ha, -⟩ := bind_ok_iff.1 has
    obtain ⟨t, ts, hts⟩ := h.takes _ _ _ ha
    exact absurd hts hr.not_reads

/-- At the end of the text items up to a closing mark are not found. -/
theorem Separated.listUntil_ne {item : Parser α} (h : Separated item) (hr : r.AtEnd) {close : Mark} {m : Nat} {as : List α} :
    listUntil (.mark close) item m r ≠ .ok as r' := by
  intro has
  cases m with
  | zero => exact absurd has tooDeep_ne_ok
  | succ m =>
    obtain ⟨c, r₁, hc, has⟩ := bind_ok_iff.1 has
    obtain ⟨hlook, t, r₂, ht, rfl⟩ := check_ok hc
    have hend := hr.of_same hlook
    rw [hend.kind_eq ht] at has
    obtain ⟨a, r₃, ha, -⟩ := bind_ok_iff.1 has
    obtain ⟨u, ts, hts⟩ := h.takes _ _ _ ha
    exact absurd hts hend.not_reads

/-- At the end of the text nothing follows an operand. -/
theorem chain_of_atEnd (hr : r.AtEnd) {g : Nested} {m : Nat} {e e' : Expr} (h : chain g m e r = .ok e' r') : e' = e := by
  cases m with
  | zero => exact absurd h tooDeep_ne_ok
  | succ m =>
    obtain ⟨t, r₁, ht, h⟩ := bind_ok_iff.1 h
    obtain ⟨hlook, r₂, hnext⟩ := peek_ok ht
    rw [(hr.of_same hlook).kind_eq hnext] at h
    exact (pure_ok_iff.1 h).1.symm

/-- At the end of the text no operator follows. -/
theorem climb_of_atEnd (hr : r.AtEnd) {g : Nested} {least m : Nat} {e e' : Expr} (h : climb g least m e r = .ok e' r') :
    e' = e := by
  cases m with
  | zero => exact absurd h tooDeep_ne_ok
  | succ m =>
    obtain ⟨t, r₁, ht, h⟩ := bind_ok_iff.1 h
    obtain ⟨hlook, r₂, hnext⟩ := peek_ok ht
    rw [(hr.of_same hlook).kind_eq hnext] at h
    exact (pure_ok_iff.1 h).1.symm

/-! ## Bounds -/

/-- The bound of a loop over repeated items does not matter. -/
theorem Repeated.suffices {item : Parser (Option α)} (h : Repeated item) : Suffices (many item) :=
  suffices_of_alike fun _ => alike_many h.alike fun _ _ _ => h.takes

/-- The bound of a loop over items with commas in between does not matter. -/
theorem Separated.suffices_commaSeparated {item : Parser α} (h : Separated item) : Suffices (commaSeparated item) :=
  suffices_of_alike fun _ => alike_commaSeparated h.alike h.takes

/-- The bound of a loop over items up to a closing token does not matter. -/
theorem Separated.suffices_listUntil {item : Parser α} (h : Separated item) (close : Kind) : Suffices (listUntil close item) :=
  suffices_of_alike fun _ => alike_listUntil close h.alike h.takes

/-! ## Termination -/

/-- A loop that goes on as long as there is another item comes to an end: an item takes a token, at the end of the text there is
none, and a bound above the number of tokens that are left is not reached. -/
structure RepeatedEnds (item : Parser (Option α)) : Prop where
  progress : ∀ r a r', item r = .ok (some a) r' → r'.left < r.left
  stops : ∀ r m as r', r.AtEnd → many item m r = .ok as r' → as = []
  bound : Suffices (many item)

/-- A loop that goes on as long as there is another comma comes to an end: an item takes a token, at the end of the text the loop
fails, and a bound above the number of tokens that are left is not reached. -/
structure SeparatedEnds (item : Parser α) : Prop where
  progress : Progresses item
  fails : ∀ r m as r', r.AtEnd → commaSeparated item m r ≠ .ok as r'
  fails_until : ∀ r m as r' close, r.AtEnd → listUntil (.mark close) item m r ≠ .ok as r'
  bound : Suffices (commaSeparated item)
  bound_until : ∀ close, Suffices (listUntil (.mark close) item)

/-- What follows an operand comes to an end: at the end of the text nothing does, and a bound above the number of tokens that are
left is not reached. -/
structure OperandEnds (e : Expr) : Prop where
  stops_chain : ∀ r m e' r', r.AtEnd → chain whole m e r = .ok e' r' → e' = e
  stops_climb : ∀ r m least e' r', r.AtEnd → climb whole least m e r = .ok e' r' → e' = e
  bound_chain : Suffices (chain whole · e)
  bound_climb : ∀ least, Suffices (climb whole least · e)

/-- The loops that go on as long as there is another item come to an end. -/
theorem Repeated.ends {item : Parser (Option α)} (h : Repeated item) : RepeatedEnds item where
  progress := by
    intro r a r' ha
    obtain ⟨t, ts, hts⟩ := h.takes ha
    have hleft := hts.left_eq
    rw [List.length_cons] at hleft
    omega
  stops _ _ _ _ hr := h.eq_nil hr
  bound := h.suffices

/-- The loops that go on as long as there is another comma come to an end. -/
theorem Separated.ends {item : Parser α} (h : Separated item) : SeparatedEnds item where
  progress := progresses_of_takes h.takes
  fails _ _ _ _ hr := h.commaSeparated_ne hr
  fails_until _ _ _ _ _ hr := h.listUntil_ne hr
  bound := h.suffices_commaSeparated
  bound_until _ := h.suffices_listUntil _

/-- The loops over what follows an operand come to an end. -/
theorem operandEnds (e : Expr) : OperandEnds e where
  stops_chain _ _ _ _ hr := chain_of_atEnd hr
  stops_climb _ _ _ _ _ hr := climb_of_atEnd hr
  bound_chain := suffices_of_alike fun _ => alike_chain reads_whole alike_whole e
  bound_climb least := suffices_of_alike fun _ => alike_climb alike_whole least e

/-- Parsing always comes to an end, and the number of tokens that are left is what falls on the way.
1. Every source has a tree or an error, and the error is never that a bound was reached.
2. An import, a statement, an expression, an operand, a type, a block, a method and an implementation each take at least one token
   where they succeed, and never the end of the text.
3. No loop goes on at the end of the text without failing.
4. The parsers of the grammar are the only ones that are their own productions. Parsers that do the same with fewer than `n`
   tokens left give productions that do with fewer than `n + 1`, so a production calls them with fewer tokens left only.
5. Any bound above the number of tokens that are left gives the same; so the number of all tokens does from everywhere. -/
theorem parse_terminates :
    (∀ source, (∃ p, parse source = .ok p) ∨ ∃ e, parse source = .error e ∧ ∀ s, e ≠ .grammar .tooDeep s) ∧
    (Progresses importDef ∧ Progresses whole.stmt ∧ (∀ least, Progresses (whole.expr least)) ∧ Progresses whole.unary ∧
      Progresses annotation ∧ Progresses (block whole) ∧ Progresses (method whole) ∧ Progresses (implementation whole)) ∧
    ((∀ (α : Type) (item : Parser (Option α)), Repeated item → RepeatedEnds item) ∧
      (∀ (α : Type) (item : Parser α), Separated item → SeparatedEnds item) ∧ ∀ e, OperandEnds e) ∧
    ((∀ g : Nested, g.step = g ↔ g = whole) ∧ (∀ n g, Nested.SameBelow n whole g → Nested.SameBelow (n + 1) whole g.step) ∧
      (∀ p, annotationStep p = p ↔ p = annotation) ∧
      ∀ n p, SameBelow n annotation p → SameBelow (n + 1) annotation (annotationStep p)) ∧
    (Suffices annotationWithin ∧ (∀ least, Suffices (exprWithin · least)) ∧ Suffices unaryWithin ∧ Suffices stmtWithin ∧
      ∀ source ts us r, tokenize source = .ok ts → Reads (Reader.ofSource source) us r → r.left < ts.length) := by
  refine ⟨?_, ?_, ?_, ?_, ?_⟩
  · intro source
    cases h : parse source with
    | ok p => exact .inl ⟨p, rfl⟩
    | error e =>
      refine .inr ⟨e, rfl, ?_⟩
      rintro s rfl
      exact (isAbout_of_parse_error h).1 rfl
  · exact ⟨progresses_of_takes (takes_of_writes writes_importDef fun _ => rfl), progresses_of_takes takes_stmt,
      fun least => progresses_of_takes (takes_expr reads_whole least), progresses_of_takes takes_unary,
      progresses_of_takes (takes_of_phrase writes_annotation),
      progresses_of_takes (takes_of_writes (writes_block reads_whole) fun _ => rfl),
      progresses_of_takes (takes_of_writes (writes_method reads_whole) fun _ => rfl),
      progresses_of_takes (takes_of_writes (writes_implementation reads_whole) fun _ => rfl)⟩
  · exact ⟨fun _ _ h => h.ends, fun _ _ h => h.ends, operandEnds⟩
  · refine ⟨?_, fun _ _ => sameBelow_whole_step, ?_, fun _ _ => sameBelow_annotation_step⟩
    · intro g
      exact ⟨eq_whole_of_step, fun h => h ▸ step_whole⟩
    · intro p
      exact ⟨eq_annotation_of_step, fun h => h ▸ annotationStep_annotation⟩
  · refine ⟨suffices_of_alike fun _ => alike_annotationWithin, fun least => suffices_of_alike fun _ => alike_exprWithin least,
      suffices_of_alike fun _ => alike_unaryWithin, suffices_of_alike fun _ => alike_stmtWithin, ?_⟩
    intro source ts us r hts hus
    have hlength := Reader.length_of_drain hts
    have hleft := hus.left_eq
    omega

/-- A call and its semicolon are five tokens and the end of the text: six is a bound that is enough for all of it. -/
theorem call_terminates :
    ((Reader.ofSource "f(x);").left < 6 ∧ stmtWithin 6 (Reader.ofSource "f(x);") = stmt (Reader.ofSource "f(x);") ∧
      many stmtItem 6 (Reader.ofSource "f(x);") = bounded (many stmtItem) (Reader.ofSource "f(x);")) ∧
    (Reader.ofSource "").AtEnd ∧ (∀ m ss r, many stmtItem m (Reader.ofSource "") = .ok ss r → ss = []) ∧
      ∀ m es r, listUntil (.mark .rparen) (whole.expr 0) m (Reader.ofSource "") ≠ .ok es r := by
  obtain ⟨-, -, ⟨hrepeated, hseparated, -⟩, -, -, -, -, hstmt, htokens⟩ := parse_terminates
  have hdrain : tokenize "f(x);" = .ok
      [⟨.name "f", ⟨0, 1⟩⟩, ⟨.mark .lparen, ⟨1, 2⟩⟩, ⟨.name "x", ⟨2, 3⟩⟩, ⟨.mark .rparen, ⟨3, 4⟩⟩,
      ⟨.mark .semi, ⟨4, 5⟩⟩, ⟨.eof, ⟨5, 5⟩⟩] := Reader.drain_of_drainWithin (n := 6) (by cbv)
  have hleft : (Reader.ofSource "f(x);").left < 6 := htokens _ _ _ _ hdrain (.refl _)
  have hend : (Reader.ofSource "").AtEnd := ⟨⟨.eof, ⟨0, 0⟩⟩, _, Reader.scan_of_rest_nil rfl, rfl⟩
  have hstmts := hrepeated _ _ .stmts
  refine ⟨⟨hleft, (hstmt _ 6 hleft).1, (hstmts.bound _ 6 hleft).1⟩, hend, ?_, ?_⟩
  · intro m ss r
    exact hstmts.stops _ m ss r hend
  · intro m es r
    exact (hseparated _ _ .exprs).fails_until _ m es r .rparen hend

end Grammar

end Gradual
