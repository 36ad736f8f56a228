import Gradual.Proofs.Grammar.Reports

/-!
# The errors of the grammar

Every production reports only what it is shown, and does the same over parsers that do the same, if what stands inside it does
with one token less ahead. The proofs follow the productions: the first token that is taken leaves one less, and from there on
nothing more needs to be counted.
-/

namespace Gradual

namespace Grammar

open Gradual.Parser

variable {V : Span → Prop} {n : Nat}

/-! ## Annotations -/

/-- A parser of annotations takes a token, since an annotation is written with one. -/
theorem takes_of_phrase {p : Parser Annotation} (h : Writes p (fun a => [a.phrase]) fun _ => True) : Takes p :=
  takes_of_writes h fun _ => rfl

/-- An annotation does the same over alike parsers of what stands inside it, with one token more ahead. -/
theorem alike_annotationStep {self self' : Parser Annotation} (h : Alike V n self self')
    (hw : Writes self (fun a => [a.phrase]) fun _ => True) : Alike V (n + 1) (annotationStep self) (annotationStep self') := by
  refine .next_bind ?_ ?_
  · intro t ht _
    split
    · exact .bind (alike_listUntil _ h (takes_of_phrase hw)).bounded fun _ => .bind (alike_expect rfl) fun _ =>
        .bind (alike_expect rfl) fun _ => .bind h fun _ => .pure _
    · refine .bind (alike_accept rfl) ?_
      intro b
      split
      · exact .bind (alike_commaSeparated h (takes_of_phrase hw)).bounded fun _ => .bind (alike_expect rfl) fun _ => .pure _
      · exact .pure _
    · exact .pure _
    · exact .throw (by simp) ht
  · intro t r ht
    refine ⟨.expectedType .eof, by simp, ?_, ?_⟩
    · simp only [ht]
      rfl
    · simp only [ht]
      rfl

/-- Under bounds that what is ahead does not reach, annotations are alike. -/
theorem alike_annotationWithin : AlikeWithin V n annotationWithin annotationWithin := by
  refine alike_rounds (p := fun m (_ : Unit) => annotationWithin m) (q := fun m (_ : Unit) => annotationWithin m) ?_ ()
  intro k m m' _ ih _
  exact alike_annotationStep (ih ()) (writes_annotationWithin m)

/-- An annotation reports only what it is shown. -/
theorem alike_annotation : Alike V n annotation annotation := alike_annotationWithin.bounded

/-- A parameter reports only what it is shown. -/
theorem alike_param : Alike V n param param := by
  refine .name_bind ?_
  intro t m _
  exact .bind (alike_expect rfl) fun _ => .bind alike_annotation fun _ => .pure _

/-- A list of parameters reports only what it is shown. -/
theorem alike_params : Alike V n params params :=
  .bind (alike_expect rfl) fun _ =>
    .bind (alike_listUntil _ alike_param (takes_of_writes writes_param fun _ => rfl)).bounded fun _ =>
    .bind (alike_expect rfl) fun _ => .pure _

/-- A parameter of a lambda reports only what it is shown, with an annotation or without. -/
theorem alike_lambdaParam : Alike V n lambdaParam lambdaParam := by
  refine .name_bind ?_
  intro t m _
  refine .bind (alike_accept rfl) ?_
  intro b
  split
  · exact .bind alike_annotation fun _ => .pure _
  · exact .pure _

/-- The annotation of a result, if there is one, reports only what it is shown. -/
theorem alike_returnAnnotation : Alike V n returnAnnotation returnAnnotation := by
  refine .bind (alike_accept rfl) ?_
  intro b
  split
  · exact .bind alike_annotation fun _ => .pure _
  · exact .pure _

/-! ## Blocks and expressions -/

/-- The parsers inside a production do the same and fare well. -/
structure Nested.Alike (V : Span → Prop) (n : Nat) (g g' : Nested) : Prop where
  expr (least : Nat) : Parser.Alike V n (g.expr least) (g'.expr least)
  unary : Parser.Alike V n g.unary g'.unary
  stmt : Parser.Alike V n g.stmt g'.stmt

variable {g g' : Nested}

/-- The phrases of a statement begin with one that needs a token. -/
theorem exists_solid_of_stmt (s : Stmt) : ∃ q ps, s.phrases = q :: ps ∧ q.isSolid = true := by
  cases s <;> exact ⟨_, _, by rw [Stmt.phrases, Expr.stmtParts], rfl⟩

/-- A statement is written with a token at least. -/
theorem takes_of_stmt {s : Stmt} {r r' : Reader} (h : Between r s.phrases r') : ∃ t ts, Reader.Reads r (t :: ts) r' := by
  obtain ⟨q, ps, hps, hq⟩ := exists_solid_of_stmt s
  rw [hps] at h
  exact h.takes hq

/-- An expression takes a token. -/
theorem takes_expr (hr : g.Reads) (least : Nat) : Takes (g.expr least) := takes_of_writes (hr.writes_expr least) fun _ => rfl

/-- The next statement of a block is the same over alike parsers; the end of the source is reported where it is found. -/
theorem alike_blockItem (hg : g.Alike V n g') : Alike V n (blockItem g) (blockItem g') := by
  refine .peek_bind ?_
  intro t ht
  split
  · exact (Alike.pure _).at
  · exact (Alike.throw (by simp) ht).at
  · exact (Alike.bind hg.stmt fun _ => .pure _).at

/-- A statement of a block takes a token. -/
theorem takes_blockItem (hr : g.Reads) (r : Reader) (s : Stmt) (r' : Reader) (h : blockItem g r = .ok (some s) r') :
    ∃ t ts, Reader.Reads r (t :: ts) r' := takes_of_stmt (writes_blockItem hr _ _ _ h).1

/-- The brace that opens a block leaves one token less ahead of its statements. -/
theorem alike_block (hr : g.Reads) (hg : g.Alike V n g') : Alike V (n + 1) (block g) (block g') :=
  .then (alike_expect rfl) (takes_expect rfl) fun _ =>
    .bind (alike_many (alike_blockItem hg) (takes_blockItem hr)).bounded fun _ =>
    .bind (alike_expect rfl) fun _ => .pure _

/-- Arguments are the same over alike parsers. -/
theorem alike_arguments (hr : g.Reads) (hg : g.Alike V n g') : Alike V n (arguments g) (arguments g') :=
  .bind (alike_expect rfl) fun _ => .bind (alike_listUntil _ (hg.expr 0) (takes_expr hr 0)).bounded fun _ =>
    .bind (alike_expect rfl) fun _ => .pure _

/-- A method call is the same over alike parsers, and reports what stands in the place of its arguments. -/
theorem alike_methodCall (hr : g.Reads) (hg : g.Alike V n g') (threading : Threading) (receiver : Expr) (m : String) :
    Alike V n (methodCall g threading receiver m) (methodCall g' threading receiver m) := by
  refine .peek_bind ?_
  intro t ht
  split
  · exact (Alike.bind (alike_arguments hr hg) fun _ => .pure _).at
  · exact (Alike.throw (by simp) ht).at

/-- A binding of a let is the same over alike parsers. -/
theorem alike_binding (hg : g.Alike V n g') : Alike V n (binding g) (binding g') := by
  refine .name_bind ?_
  intro t m _
  exact .bind (alike_expect rfl) fun _ => .bind (hg.expr 0) fun _ => .pure _

/-- The keyword of a let leaves one token less ahead of its bindings and its body. -/
theorem alike_letIn (hr : g.Reads) (hg : g.Alike V n g') : Alike V (n + 1) (letIn g) (letIn g') :=
  .then (alike_expect rfl) (takes_expect rfl) fun _ =>
    .bind (alike_commaSeparated (alike_binding hg) (takes_of_writes (writes_binding hr) fun _ => rfl)).bounded fun _ =>
    .bind (alike_block hr hg).weaken fun _ => .pure _

/-- A loop variable reports only what it is shown. -/
theorem alike_loopVariable : Alike V n loopVariable loopVariable := .name_bind fun _ _ _ => .pure _

/-- The keyword of a loop leaves one token less ahead of its parts. -/
theorem alike_forEach (hr : g.Reads) (hg : g.Alike V n g') : Alike V (n + 1) (forEach g) (forEach g') :=
  .then (alike_expect rfl) (takes_expect rfl) fun _ =>
    .bind (alike_commaSeparated alike_loopVariable (takes_of_writes writes_loopVariable fun _ => rfl)).bounded fun _ =>
    .bind (alike_expect rfl) fun _ => .bind (hg.expr 0) fun _ => .bind (alike_block hr hg).weaken fun _ => .pure _

/-- A condition and its block are the same over alike parsers. -/
theorem alike_branch (hr : g.Reads) (hg : g.Alike V n g') : Alike V n (branch g) (branch g') :=
  .bind (hg.expr 0) fun _ => .bind (alike_block hr hg).weaken fun _ => .pure _

/-- A further branch is the same over alike parsers. -/
theorem alike_elifItem (hr : g.Reads) (hg : g.Alike V n g') : Alike V n (elifItem g) (elifItem g') := by
  refine .bind (alike_accept rfl) ?_
  intro b
  split
  · exact .bind (alike_branch hr hg) fun _ => .pure _
  · exact .pure _

/-- The last branch, if there is one, is the same over alike parsers. -/
theorem alike_otherwise (hr : g.Reads) (hg : g.Alike V n g') : Alike V n (otherwise g) (otherwise g') := by
  refine .bind (alike_accept rfl) ?_
  intro b
  split
  · exact .bind (alike_block hr hg).weaken fun _ => .pure _
  · exact .pure _

/-- The keyword of a conditional leaves one token less ahead of its branches. -/
theorem alike_conditional (hr : g.Reads) (hg : g.Alike V n g') : Alike V (n + 1) (conditional g) (conditional g') :=
  .then (alike_expect rfl) (takes_expect rfl) fun _ => .bind (alike_branch hr hg) fun _ =>
    .bind (alike_many (alike_elifItem hr hg) fun _ _ _ h => (writes_elifItem hr _ _ _ h).1.takes rfl).bounded fun _ =>
    .bind (alike_otherwise hr hg) fun _ => .pure _

/-- The keyword of a lambda leaves one token less ahead of its body. -/
theorem alike_lambda (hg : g.Alike V n g') : Alike V (n + 1) (lambda g) (lambda g') :=
  .then (alike_expect rfl) (takes_expect rfl) fun _ => .bind (alike_expect rfl) fun _ =>
    .bind (alike_listUntil _ alike_lambdaParam (takes_of_writes writes_lambdaParam fun _ => rfl)).bounded fun _ =>
    .bind (alike_expect rfl) fun _ => .bind (alike_expect rfl) fun _ => .bind (hg.expr 0) fun _ => .pure _

/-- An entry of a map is the same over alike parsers. -/
theorem alike_mapItem (hg : g.Alike V n g') : Alike V n (mapItem g) (mapItem g') := by
  refine .bind (alike_check _) ?_
  intro b
  split
  · exact .pure _
  · exact .bind (hg.expr 0) fun _ => .bind (hg.expr 0) fun _ => .bind (alike_accept rfl) fun _ => .pure _

/-- What a token begins is the same over alike parsers, once the token is taken. -/
theorem alike_primaryFrom (hr : g.Reads) (hg : g.Alike V n g') {t : Token} (ht : V t.span) :
    Alike V n (primaryFrom g t) (primaryFrom g' t) := by
  unfold primaryFrom
  split
  case h_7 =>
    refine .bind (alike_check _) ?_
    intro b
    split
    · exact .bind (alike_arguments hr hg) fun _ => .pure _
    · exact .pure _
  case h_8 => exact .bind (hg.expr 0) fun _ => .bind (alike_expect rfl) fun _ => .pure _
  case h_9 =>
    exact .bind (alike_listUntil _ (hg.expr 0) (takes_expr hr 0)).bounded fun _ => .bind (alike_expect rfl) fun _ => .pure _
  case h_10 =>
    exact .bind (alike_many (alike_mapItem hg) fun _ _ _ h => (writes_mapItem hr _ _ _ h).1.takes rfl).bounded fun _ =>
      .bind (alike_expect rfl) fun _ => .pure _
  case h_11 => exact .throw (by simp) ht
  all_goals exact .pure _

/-- A primary expression takes its first token before it goes on inside. -/
theorem alike_primary (hr : g.Reads) (hg : g.Alike V n g') : Alike V (n + 1) (primary g) (primary g') := by
  refine .peek_bind ?_
  intro t _
  generalize t.kind = k
  split
  · exact (Alike.bind (alike_block hr hg) fun _ => .pure _).at
  · exact (alike_letIn hr hg).at
  · exact (alike_forEach hr hg).at
  · exact (alike_conditional hr hg).at
  · exact (alike_lambda hg).at
  · refine (Alike.next_bind ?_ ?_).at
    · intro u hu _
      exact alike_primaryFrom hr hg hu
    · intro u r hu
      refine ⟨.expectedExpression .eof, by simp, ?_, ?_⟩
      · rw [primaryFrom, hu]
        rfl
      · rw [primaryFrom, hu]
        rfl

/-- The members, keys and method calls after an expression: each takes a token. -/
theorem alike_chain (hr : g.Reads) (hg : g.Alike V n g') (e : Expr) : AlikeWithin V n (chain g · e) (chain g' · e) := by
  refine alike_rounds (p := chain g) (q := chain g') ?_ e
  intro k m m' hk ih e
  have hcall (threading : Threading) (method : String) :
      Alike V k (methodCall g threading e method) (methodCall g' threading e method) :=
    (alike_methodCall hr hg threading e method).mono (Nat.le_of_lt hk)
  refine .peek_bind ?_
  intro t _
  generalize hkind : t.kind = kind
  split
  · refine .next_bind (by simp [hkind]) (.name_bind ?_)
    intro u field _
    refine .bind (alike_check _) ?_
    intro b
    split
    · exact .bind (hcall .first field) ih
    · exact ih _
  · refine .next_bind (by simp [hkind]) (.bind alike_expectName ?_)
    intro method
    exact .bind (hcall .last method) ih
  · split
    · refine .next_bind (by simp [hkind]) (.bind ((hg.expr 0).mono (Nat.le_of_lt hk)) ?_)
      intro key
      exact .bind (alike_expect rfl) fun _ => ih _
    · exact (Alike.pure _).at
  · exact (Alike.pure _).at

/-- An operator in front of an operand leaves one token less ahead of the operand. -/
theorem alike_unary (hr : g.Reads) (hg : g.Alike V n g') : Alike V (n + 1) (unary g) (unary g') := by
  refine .peek_bind ?_
  intro t _
  generalize hop : unaryOp? t.kind = o
  split
  · rename_i op
    refine .next_bind ?_ (.bind hg.unary fun _ => .pure _)
    rw [eq_kind_of_unaryOp hop]
    cases op <;> simp [UnaryOp.kind]
  · have htakes : Takes (primary g) := takes_of_writes (writes_primary hr) fun _ => rfl
    exact (Alike.then (alike_primary hr hg) htakes fun e => (alike_chain hr hg e).bounded).at

/-- The operators after an operand: each takes a token. -/
theorem alike_climb (hg : g.Alike V n g') (least : Nat) (left : Expr) :
    AlikeWithin V n (climb g least · left) (climb g' least · left) := by
  refine alike_rounds (p := climb g least) (q := climb g' least) ?_ left
  intro k m m' hk ih left
  refine .peek_bind ?_
  intro t _
  generalize hop : binaryOp? t.kind = o
  split
  · exact (Alike.pure _).at
  · rename_i op
    split
    · exact (Alike.pure _).at
    · refine .next_bind ?_ (.bind ((hg.expr _).mono (Nat.le_of_lt hk)) fun _ => ih _)
      rw [eq_kind_of_binaryOp hop]
      cases op <;> simp [BinaryOp.kind]

/-- The operand in front of the operators leaves one token less ahead of what follows. -/
theorem alike_exprStep (hr : g.Reads) (hg : g.Alike V n g') (least : Nat) :
    Alike V (n + 1) (exprStep g least) (exprStep g' least) :=
  .then (alike_unary hr hg) (takes_of_writes (writes_unary hr) fun _ => rfl) fun e => (alike_climb hg least e).bounded

/-! ## Statements -/

/-- The generic parameters of a function report only what they are shown. -/
theorem alike_generics : Alike V n generics generics := by
  refine .bind (alike_accept rfl) ?_
  intro b
  split
  · exact .bind (alike_commaSeparated alike_expectName takes_expectName).bounded fun _ =>
      .bind (alike_expect rfl) fun _ => .pure _
  · exact .pure _

/-- The keyword of a function definition leaves one token less ahead of its body. -/
theorem alike_functionDef (hr : g.Reads) (hg : g.Alike V n g') : Alike V (n + 1) (functionDef g) (functionDef g') :=
  .then (alike_expect rfl) (takes_expect rfl) fun _ => .bind alike_generics fun _ => .bind alike_expectName fun _ =>
    .bind alike_params fun _ => .bind alike_returnAnnotation fun _ => .bind (alike_block hr hg).weaken fun _ => .pure _

/-- A method is the same over alike parsers. -/
theorem alike_method (hr : g.Reads) (hg : g.Alike V n g') : Alike V n (method g) (method g') :=
  .bind (alike_expect rfl) fun _ => .bind alike_expectName fun _ => .bind alike_params fun _ =>
    .bind alike_returnAnnotation fun _ => .bind (alike_block hr hg).weaken fun _ => .pure _

/-- The next method of an implementation, if there is one, is the same over alike parsers. -/
theorem alike_methodItem (hr : g.Reads) (hg : g.Alike V n g') : Alike V n (methodItem g) (methodItem g') := by
  refine .bind (alike_check _) ?_
  intro b
  split
  · exact .pure _
  · exact .bind (alike_method hr hg) fun _ => .pure _

/-- An implementation is the same over alike parsers. -/
theorem alike_implementation (hr : g.Reads) (hg : g.Alike V n g') : Alike V n (implementation g) (implementation g') :=
  .bind (alike_expect rfl) fun _ => .bind alike_expectName fun _ => .bind (alike_expect rfl) fun _ =>
    .bind (alike_many (alike_methodItem hr hg) fun _ _ _ h => (writes_methodItem hr _ _ _ h).1.takes rfl).bounded fun _ =>
    .bind (alike_expect rfl) fun _ => .pure _

/-- The next implementation of a record, if there is one, is the same over alike parsers. -/
theorem alike_implementationItem (hr : g.Reads) (hg : g.Alike V n g') :
    Alike V n (implementationItem g) (implementationItem g') := by
  refine .bind (alike_check _) ?_
  intro b
  split
  · exact .bind (alike_implementation hr hg) fun _ => .pure _
  · exact .pure _

/-- The end of a record is found by a look at the next token. -/
theorem alike_recordEnd (fields : Span) (is : List Implementation) : Alike V n (recordEnd fields is) (recordEnd fields is) := by
  refine .weaken (.peek_bind ?_)
  intro t _
  generalize hk : t.kind = k
  split
  · exact .next_bind (by simp [hk]) (.pure _)
  · exact (Alike.pure _).at

/-- The keyword of a record leaves one token less ahead of its implementations. -/
theorem alike_recordDef (hr : g.Reads) (hg : g.Alike V n g') : Alike V (n + 1) (recordDef g) (recordDef g') :=
  .then (alike_expect rfl) (takes_expect rfl) fun _ => .bind alike_expectName fun _ => .bind alike_params fun _ =>
    .bind (alike_many (alike_implementationItem hr hg) fun _ _ _ h => (writes_implementationItem hr _ _ _ h).1.takes rfl).bounded
    fun _ => .bind (alike_recordEnd _ _) fun _ => .pure _

/-- The keyword of a variable definition leaves one token less ahead of its value. -/
theorem alike_define (hg : g.Alike V n g') : Alike V (n + 1) (define g) (define g') := by
  refine .then (alike_expect rfl) (takes_expect rfl) fun _ => .bind alike_expectName fun _ => .bind ?_ fun _ =>
    .bind (alike_expect rfl) fun _ => .bind (hg.expr 0) fun _ => .bind (alike_expect rfl) fun _ => .pure _
  refine .bind (alike_accept rfl) ?_
  intro b
  split
  · exact .bind alike_annotation fun _ => .pure _
  · exact .pure _

/-- A statement leaves one token less ahead of what stands inside it, whichever token it begins with. -/
theorem alike_stmtStep (hr : g.Reads) (hg : g.Alike V n g') : Alike V (n + 1) (stmtStep g) (stmtStep g') := by
  refine .peek_bind ?_
  intro t _
  split
  · exact (alike_functionDef hr hg).at
  · exact (alike_recordDef hr hg).at
  · exact (alike_define hg).at
  · exact (Alike.bind (alike_exprStep hr hg 0) fun _ => .bind (alike_accept rfl) fun _ => .pure _).at

/-! ## The grammar nested at most so deep -/

/-- The productions over the parsers inside them. -/
def Nested.step (g : Nested) : Nested := ⟨exprStep g, Grammar.unary g, stmtStep g⟩

/-- The grammar, nested as deep as what is left to read can be. -/
def whole : Nested := ⟨fun least => bounded (exprWithin · least), bounded unaryWithin, bounded stmtWithin⟩

/-- A step deeper, two grammars do the same below one token more. -/
theorem Nested.Alike.step (hr : g.Reads) (hg : g.Alike V n g') : Nested.Alike V (n + 1) g.step g'.step :=
  ⟨alike_exprStep hr hg, alike_unary hr hg, alike_stmtStep hr hg⟩

/-- With nothing ahead there is nothing to compare. -/
theorem Nested.Alike.none_ahead : Nested.Alike V 0 g g' := ⟨fun _ => .none_ahead, .none_ahead, .none_ahead⟩

/-- Under bounds that what is ahead does not reach, the grammar is the same. -/
theorem alike_within (n m : Nat) : Nested.Alike V (min n m) (.within n) (.within m) := by
  induction n generalizing m with
  | zero =>
    rw [Nat.zero_min]
    exact .none_ahead
  | succ n ih =>
    cases m with
    | zero =>
      rw [Nat.min_zero]
      exact .none_ahead
    | succ m =>
      rw [Nat.add_min_add_right]
      exact .step (reads_within n) (ih m)

/-- Under bounds that what is ahead does not reach, expressions are alike. -/
theorem alike_exprWithin (least : Nat) : AlikeWithin V n (exprWithin · least) (exprWithin · least) :=
  fun m m' => ((alike_within m m').expr least).mono (Nat.min_le_right _ _)

/-- Under such bounds operands are alike. -/
theorem alike_unaryWithin : AlikeWithin V n unaryWithin unaryWithin :=
  fun m m' => (alike_within m m').unary.mono (Nat.min_le_right _ _)

/-- Under such bounds statements are alike. -/
theorem alike_stmtWithin : AlikeWithin V n stmtWithin stmtWithin :=
  fun m m' => (alike_within m m').stmt.mono (Nat.min_le_right _ _)

/-- Expressions, operands and statements report only what they are shown. -/
theorem alike_whole : whole.Alike V n whole :=
  ⟨fun least => (alike_exprWithin least).bounded, alike_unaryWithin.bounded, alike_stmtWithin.bounded⟩

/-! ## Programs -/

/-- A further name of an import path reports only what it is shown. -/
theorem alike_pathItem : Alike V n pathItem pathItem := by
  refine .bind (alike_accept rfl) ?_
  intro b
  split
  · exact .bind alike_expectName fun _ => .pure _
  · exact .pure _

/-- An import reports only what it is shown. -/
theorem alike_importDef : Alike V n importDef importDef :=
  .bind (alike_expect rfl) fun _ => .bind alike_expectName fun _ =>
    .bind (alike_many alike_pathItem fun _ _ _ h => (writes_pathItem _ _ _ h).1.takes rfl).bounded fun _ =>
    .bind (alike_expect rfl) fun _ => .pure _

/-- The next import, if there is one, reports only what it is shown. -/
theorem alike_importItem : Alike V n importItem importItem := by
  refine .bind (alike_check _) ?_
  intro b
  split
  · exact .bind alike_importDef fun _ => .pure _
  · exact .pure _

/-- The next statement, if there is one, reports only what it is shown. -/
theorem alike_stmtItem : Alike V n stmtItem stmtItem := by
  refine .bind (alike_check _) ?_
  intro b
  split
  · exact .pure _
  · exact .bind alike_whole.stmt fun _ => .pure _

/-- A statement of a program takes a token. -/
theorem takes_stmtItem (r : Reader) (s : Stmt) (r' : Reader) (h : stmtItem r = .ok (some s) r') :
    ∃ t ts, Reader.Reads r (t :: ts) r' := takes_of_stmt (writes_stmtItem _ _ _ h).1

/-- A program reports only what it is shown. -/
theorem alike_program : Alike V n program program := by
  refine .peek_bind ?_
  intro t _
  refine Alike.at (.bind (alike_many alike_importItem fun _ _ _ h => (writes_importItem _ _ _ h).1.takes rfl).bounded fun _ =>
    .bind (alike_many alike_stmtItem takes_stmtItem).bounded fun _ => .peek_bind ?_)
  intro u _
  exact (Alike.pure _).at

end Grammar

/-- What is wrong with a text that is no program is wrong with one of its tokens, or is a fault; it is never the depth
of nesting. -/
theorem isAbout_of_parse_error {source : String} {e : ParseError} (h : parse source = .error e) :
    e.IsAbout (·.Fits source) := by
  unfold parse at h
  obtain ⟨-, hfares⟩ := Grammar.alike_program _ (Reader.shows_ofSource source) (Nat.lt_succ_self _)
  split at h
  · cases h
  · rename_i e' r' he
    cases h
    rw [he] at hfares
    exact hfares

end Gradual
