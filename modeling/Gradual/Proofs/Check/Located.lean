import Gradual.Proofs.Check.Validity
import Gradual.Proofs.Scope.Names
import Gradual.Proofs.Tree.Phrase

/-!
# Where a rejection points

A program is rejected at the span of one of its own nodes, and never for an error of the checker (`Program.located_validate`):
every rejection takes the span of the node that is being looked at, and every declaration is made with as many names as types.
What is known of the spans of a program is so known of the span of its rejection.
-/

namespace Gradual

open Phrase (AllSpans)

/-- A rejection for an issue of the program, at a span with a property. -/
def Rejection.IsAt (V : Span → Prop) : Rejection → Prop
  | .issue i => V i.span
  | .internal _ => False

/-- An outcome that, if it is a rejection, points to a span with a property. -/
def Located {α : Type} (V : Span → Prop) (x : Outcome α) : Prop := ∀ r, x = .error r → r.IsAt V

namespace Located

variable {α β : Type} {V : Span → Prop}

/-- What succeeds is no rejection. -/
theorem ok (a : α) : Located V (.ok a) := by
  intro r hr
  cases hr

/-- A rejection that is made at a known span is located. -/
theorem error {c : Cause} {span : Span} (h : V span) : Located V (.error (c.at span) : Outcome α) := by
  intro r hr
  cases hr
  exact h

/-- A sequence is located when both of its steps are, the second one wherever the first succeeds. -/
theorem bind {x : Outcome α} {f : α → Outcome β} (hx : Located V x) (hf : ∀ a, x = .ok a → Located V (f a)) :
    Located V (x >>= f) := by
  intro r hr
  rcases bind_eq_error_iff.1 hr with hr | ⟨a, ha, hr⟩
  · exact hx r hr
  · exact hf a ha r hr

/-- A sequence of steps that write a log is located when both of its steps are. -/
theorem bind_run {x : Checking α} {f : α → Checking β} (hx : Located V x.verdict)
    (hf : ∀ a, x.verdict = .ok a → Located V (f a).verdict) : Located V (x >>= f).verdict := by
  rw [Run.verdict_bind]
  exact bind hx hf

/-- An error of a call is reported at the span of the call. -/
theorem ofCall {f : String} {span : Span} (h : V span) (x : Except CallError α) : Located V (Outcome.ofCall f span x) := by
  cases x with
  | ok a => exact ok a
  | error e => exact error h

end Located

namespace Scope

variable {V : Span → Prop}

/-! ## Annotations and declarations -/

mutual

/-- An unknown type name is reported at the span of the annotation that has it. -/
theorem located_resolve (s : Scope) : ∀ a : Annotation, AllSpans V [a.phrase] → Located V (s.resolve a)
  | .named n [] span, h => by
    have hspan : V span := by simpa [Gradual.Annotation.phrase, Annotation.span, Annotation.parts] using h
    rw [resolve]
    cases s.type? n with
    | none => exact .error hspan
    | some base => exact .ok base
  | .named n (a :: as) span, h => by
    obtain ⟨hspan, has⟩ : V span ∧ AllSpans V ((a :: as).map Annotation.phrase) := by
      simpa [Gradual.Annotation.phrase, Annotation.span, Annotation.parts] using h
    rw [resolve]
    cases s.type? n with
    | none => exact .error hspan
    | some base => exact .bind (located_resolveAll s (a :: as) has) fun ts _ => .ok _
  | .function ps t span, h => by
    obtain ⟨-, hps, ht⟩ : V span ∧ AllSpans V (ps.map Annotation.phrase) ∧ AllSpans V [t.phrase] := by
      simpa [Gradual.Annotation.phrase, Annotation.span, Annotation.parts] using h
    rw [resolve]
    exact .bind (located_resolveAll s ps hps) fun ts _ => .bind (located_resolve s t ht) fun u _ => .ok _

/-- Annotations that are resolved one after the other are rejected at one of them. -/
theorem located_resolveAll (s : Scope) : ∀ as : List Annotation, AllSpans V (as.map Annotation.phrase) →
    Located V (s.resolveAll as)
  | [], _ => .ok []
  | a :: as, h => by
    rw [List.map_cons, Phrase.allSpans_cons] at h
    rw [resolveAll]
    exact .bind (located_resolve s a h.1) fun t _ => .bind (located_resolveAll s as h.2) fun ts _ => .ok _

end

/-- A parameter with its annotation. -/
theorem allSpans_param {p : Param} : AllSpans V [p.phrase] ↔ V p.span ∧ AllSpans V [p.ty.phrase] := by
  simp [Param.phrase]

/-- The annotated types of parameters are rejected at an annotation. -/
theorem located_paramTypes (s : Scope) {ps : List Param} (h : AllSpans V (ps.map Param.phrase)) :
    Located V (s.paramTypes ps) := by
  refine located_resolveAll s _ ?_
  rw [Phrase.allSpans_map] at h
  rw [List.map_map, Phrase.allSpans_map]
  intro p hp
  exact (allSpans_param.1 (h p hp)).2

/-- A declaration with as many names as types is made. -/
theorem located_make {name : String} {generics : Option (List GenericParameter)}
    {names : List String} {types : List Ty} {ret : Ty}
    (h : names.length = types.length) : Located V (Outcome.ofInternal (Declaration.make name generics names types ret)) := by
  rw [Declaration.make, if_pos h]
  exact .ok _

/-- A signature is rejected at an annotation of a parameter or of its result. -/
theorem located_functionDeclaration (s : Scope) {n : String} {generics : List String} {ps : List Param} {ret : Option Annotation}
    (hps : AllSpans V (ps.map Param.phrase)) (hret : ∀ a ∈ ret, AllSpans V [a.phrase]) :
    Located V (s.functionDeclaration n generics ps ret) := by
  cases ret with
  | none => exact .ok none
  | some a =>
    refine .bind (located_paramTypes s hps) fun ts hts => .bind (located_resolve s a (hret a rfl)) fun t _ =>
      .bind (located_make ?_) fun d _ => .ok _
    simpa using (length_resolveAll hts).symm

/-- A method's signature is rejected at such an annotation too. -/
theorem located_methodDeclaration (s : Scope) {receiver : Ty} {n : String} {ps : List Param} {ret : Option Annotation}
    (hps : AllSpans V (ps.map Param.phrase)) (hret : ∀ a ∈ ret, AllSpans V [a.phrase]) :
    Located V (s.methodDeclaration receiver n ps ret) := by
  cases ret with
  | none => exact .ok none
  | some a =>
    refine .bind (located_paramTypes s hps) fun ts hts => .bind (located_resolve s a (hret a rfl)) fun t _ =>
      .bind (located_make ?_) fun d _ => .ok _
    simpa using (length_resolveAll hts).symm

/-- The layout of a record is rejected at the annotation of a field. -/
theorem located_recordLayout (s : Scope) {n : String} {fields : List Param} (h : AllSpans V (fields.map Param.phrase)) :
    Located V (s.recordLayout n fields) := .bind (located_paramTypes s h) fun _ _ => .ok _

/-! ## Names -/

/-- A variable that is declared already is reported where it is declared again. -/
theorem located_ensureNewVariable (s : Scope) {n : String} {span : Span} (h : V span) :
    Located V (s.ensureNewVariable n span) := by
  unfold ensureNewVariable
  split
  · exact .error h
  · exact .ok ()

/-- A function that is declared already is reported where it is declared again. -/
theorem located_ensureNewFunction (s : Scope) {n : String} {span : Span} (h : V span) :
    Located V (s.ensureNewFunction n span) := by
  unfold ensureNewFunction
  split
  · exact .error h
  · exact .ok ()

/-- A record that is declared already is reported where it is declared again. -/
theorem located_ensureNewRecord (s : Scope) {n : String} {span : Span} (h : V span) : Located V (s.ensureNewRecord n span) := by
  unfold ensureNewRecord
  split
  · exact .error h
  · exact located_ensureNewFunction s h

/-- Two fields of one name are reported at the record. -/
theorem located_ensureDistinctFields {fields : List Param} {span : Span} (h : V span) :
    Located V (ensureDistinctFields fields span) := by
  unfold ensureDistinctFields
  split
  · exact .error h
  · exact .ok ()

/-- Parameters are rejected at one of them or at an annotation. -/
theorem located_declareParams {s : Scope} {ps : List Param} (h : AllSpans V (ps.map Param.phrase)) :
    Located V (s.declareParams ps) := by
  induction ps generalizing s with
  | nil => exact .ok s
  | cons p ps ih =>
    rw [List.map_cons, Phrase.allSpans_cons, allSpans_param] at h
    rw [declareParams]
    exact .bind (located_ensureNewVariable s h.1.1) fun _ _ => .bind (located_resolve s p.ty h.1.2) fun t _ => ih h.2

/-- A parameter of a lambda, with its annotation if it has one. -/
theorem allSpans_lambdaParam {p : LambdaParam} :
    AllSpans V [p.phrase] ↔ V p.span ∧ ∀ a ∈ p.ty, AllSpans V [a.phrase] := by
  cases h : p.ty <;> simp [LambdaParam.phrase, Annotation.phrasesAfter, h]

/-- The parameters of a lambda are rejected so as well. -/
theorem located_declareLambdaParams {s : Scope} {ps : List LambdaParam} (h : AllSpans V (ps.map LambdaParam.phrase)) :
    Located V (s.declareLambdaParams ps) := by
  induction ps generalizing s with
  | nil => exact .ok s
  | cons p ps ih =>
    rw [List.map_cons, Phrase.allSpans_cons, allSpans_lambdaParam] at h
    rw [declareLambdaParams]
    refine .bind (located_ensureNewVariable s h.1.1) fun _ _ => ?_
    cases hty : p.ty with
    | none => exact ih h.2
    | some a => exact .bind (located_resolve s a (h.1.2 a hty)) fun t _ => ih h.2

/-- A loop variable is rejected where it stands. -/
theorem located_declareLoopVars {s : Scope} {ty : Option Ty} {vs : List LocalName} (h : AllSpans V (vs.map LocalName.phrase)) :
    Located V (s.declareLoopVars ty vs) := by
  induction vs generalizing s with
  | nil => exact .ok s
  | cons v vs ih =>
    have hspan : V v.span ∧ AllSpans V (vs.map LocalName.phrase) := by simpa [LocalName.phrase] using h
    rw [declareLoopVars]
    exact .bind (located_ensureNewVariable s hspan.1) fun _ _ => ih hspan.2

/-- The scope of a lambda's body is rejected at an annotation of a parameter. -/
theorem located_lambdaScope (s : Scope) {inner : Scope} {ps : List LambdaParam} (h : AllSpans V (ps.map LambdaParam.phrase)) :
    Located V (s.lambdaScope inner ps) := by
  induction ps generalizing inner with
  | nil => exact .ok _
  | cons p ps ih =>
    rw [List.map_cons, Phrase.allSpans_cons, allSpans_lambdaParam] at h
    rw [lambdaScope]
    cases hty : p.ty with
    | none => exact .ok none
    | some a =>
      refine .bind (located_resolve s a (h.1.2 a hty)) fun t _ => .bind (ih h.2) fun o _ => ?_
      cases o with
      | none => exact .ok none
      | some x => exact .ok _

/-- An unknown member is reported at the access. -/
theorem located_memberType (s : Scope) (t : Option Ty) {field : String} {span : Span} (h : V span) :
    Located V (s.memberType t field span) := by
  unfold memberType
  split
  · exact .ok none
  · split
    · exact .ok _
    · exact .error h

/-- An unknown function is reported at the call. -/
theorem located_expectCallee (s : Scope) {f : String} {span : Span} (h : V span) : Located V (s.expectCallee f span) := by
  unfold expectCallee
  split
  · exact .ok _
  · exact .error h

/-! ## Types of expressions -/

/-- The type of an expression is refused only where the expression is. -/
abbrev TypeLocated (V : Span → Prop) (e : Expr) : Prop := AllSpans V [e.phrase] → ∀ s : Scope, Located V (s.typeOf e)

/-- An argument adds no rejection to that of its own type. -/
theorem located_argType (s : Scope) {d : Declaration} {i : Nat} {e : Expr} {own : Outcome (Option Ty)} (h : Located V own) :
    Located V (s.argType d i e own) := by
  unfold argType
  split
  · exact .ok _
  · exact h

/-- The arguments of a call are rejected within one of them. -/
theorem located_argTypes {s : Scope} {d : Declaration} {i : Nat} {es : List Expr} (ih : ∀ e ∈ es, Located V (s.typeOf e)) :
    Located V (s.argTypes d i es) := by
  induction es generalizing i with
  | nil => exact .ok []
  | cons e es ihes =>
    rw [List.forall_mem_cons] at ih
    rw [argTypes]
    exact .bind (located_argType s ih.1) fun t _ => .bind (ihes ih.2) fun ts _ => .ok _

/-- A call is typed or rejected at itself or within an argument. -/
theorem located_typeOf_call {s : Scope} {f : String} {args : List Expr} {span : Span} (hspan : V span)
    (ih : ∀ e ∈ args, Located V (s.typeOf e)) : Located V (s.typeOf (.call f args span)) := by
  rw [typeOf]
  cases s.callee? f with
  | none => exact .error hspan
  | some c =>
    cases c with
    | untyped => exact .ok none
    | typed d =>
      dsimp only
      split
      · exact .bind (located_argTypes ih) fun ts _ => .ofCall hspan _
      · exact .ok _

/-- The bindings of a let are typed or rejected within a value. -/
theorem located_bindAll {s : Scope} {bs : List Binding} (ih : ∀ b ∈ bs, ∀ s : Scope, Located V (s.typeOf b.value)) :
    Located V (s.bindAll bs) := by
  induction bs generalizing s with
  | nil => exact .ok s
  | cons b bs ihbs =>
    obtain ⟨n, value, span⟩ := b
    rw [List.forall_mem_cons] at ih
    rw [bindAll]
    exact .bind (ih.1 s) fun t _ => ihbs ih.2

/-- The types of branches are refused only in a branch, and come with the spans of the branches. -/
theorem located_branchTypes {s : Scope} {bs : List Branch} (ih : ∀ b ∈ bs, Located V (s.blockType b.body)) :
    Located V (s.branchTypes bs) := by
  induction bs with
  | nil => exact .ok _
  | cons b bs ihbs =>
    obtain ⟨condition, body⟩ := b
    rw [List.forall_mem_cons] at ih
    rw [branchTypes]
    refine .bind ih.1 fun o _ => ?_
    cases o with
    | none => exact .ok none
    | some t =>
      refine .bind (ihbs ih.2) fun o _ => ?_
      cases o <;> exact .ok _

/-- The types of branches come with the spans of the branches' bodies. -/
theorem spans_of_branchTypes {s : Scope} {bs : List Branch} {ts : List (Ty × Span)} (h : ∀ b ∈ bs, V b.body.span)
    (hts : s.branchTypes bs = .ok (some ts)) : ∀ x ∈ ts, V x.2 := by
  induction bs generalizing ts with
  | nil =>
    cases hts
    exact List.forall_mem_nil _
  | cons b bs ih =>
    obtain ⟨condition, body⟩ := b
    rw [List.forall_mem_cons] at h
    rw [branchTypes] at hts
    obtain ⟨o, -, hts⟩ := bind_eq_ok_iff.1 hts
    cases o with
    | none => cases hts
    | some t =>
      obtain ⟨o, ho, hts⟩ := bind_eq_ok_iff.1 hts
      cases o with
      | none => cases hts
      | some us =>
        cases hts
        exact List.forall_mem_cons.2 ⟨h.1, ih h.2 ho⟩

/-- A conditional with its branches and its last block. -/
theorem allSpans_cond {branches : List Branch} {otherwise : Option Block} {span : Span} :
    AllSpans V [(Expr.cond branches otherwise span).phrase] ↔ V span ∧
      (∀ b ∈ branches, AllSpans V [b.condition.phrase] ∧ AllSpans V [b.body.phrase]) ∧
        ∀ b ∈ otherwise, AllSpans V [b.phrase] := by
  have hparts : AllSpans V (Expr.branchPhrases .ifThen branches) ↔
      ∀ b ∈ branches, AllSpans V [b.condition.phrase] ∧ AllSpans V [b.body.phrase] := by
    cases branches with
    | nil => simp [Expr.branchPhrases]
    | cons b bs => simp [Branch.phrases, Expr.phrase, Block.phrase, and_assoc]
  have hlast : AllSpans V (Expr.otherwisePhrases otherwise) ↔ ∀ b ∈ otherwise, AllSpans V [b.phrase] := by
    cases otherwise <;> simp [Expr.otherwisePhrases, Block.phrase]
  simp only [Expr.phrase, Expr.parts, Expr.span, Phrase.allSpans_node, Phrase.allSpans_append, Phrase.allSpans_nil, and_true] at *
  rw [hparts, hlast]

/-- Branches of different types are reported at the body of one of them. -/
theorem located_commonBranchType {ts : List (Ty × Span)} (h : ∀ x ∈ ts, V x.2) : Located V (commonBranchType ts) := by
  cases ts with
  | nil => exact .ok none
  | cons x others =>
    rw [List.forall_mem_cons] at h
    rw [commonBranchType]
    split
    · rename_i t span hfound
      exact .error (h.2 _ (List.mem_of_find?_eq_some hfound))
    · exact .ok _

/-! ## What statements bind -/

/-- A method with its parameters, its result and its body. -/
theorem allSpans_method {m : Method} : AllSpans V [m.phrase] ↔ V m.span ∧ AllSpans V (m.params.map Param.phrase) ∧
    (∀ a ∈ m.ret, AllSpans V [a.phrase]) ∧ AllSpans V [m.body.phrase] := by
  cases h : m.ret <;> simp [Method.phrase, Param.phrasesOf, Annotation.phrasesAfter, Annotation.phrase, h]

/-- The spans of an implementation are its own and those of its methods. -/
theorem allSpans_implementation {i : Implementation} :
    AllSpans V [i.phrase] ↔ V i.span ∧ ∀ m ∈ i.methods, AllSpans V [m.phrase] := by
  simp [Implementation.phrase]

/-- The methods of an implementation are rejected within one of them. -/
theorem located_declareMethods {s : Scope} {receiver : Ty} {ms : List Method} (h : ∀ m ∈ ms, AllSpans V [m.phrase]) :
    Located V (s.declareMethods receiver ms) := by
  induction ms generalizing s with
  | nil => exact .ok s
  | cons m ms ih =>
    rw [List.forall_mem_cons, allSpans_method] at h
    obtain ⟨n, params, ret, body, span⟩ := m
    rw [declareMethods]
    exact .bind (located_methodDeclaration s h.1.2.1 h.1.2.2.1) fun d _ => ih h.2

/-- The implementations of a record are rejected within one of their methods. -/
theorem located_declareImplementations {s : Scope} {receiver : Ty} {is : List Implementation}
    (h : ∀ i ∈ is, AllSpans V [i.phrase]) : Located V (s.declareImplementations receiver is) := by
  induction is generalizing s with
  | nil => exact .ok s
  | cons i is ih =>
    rw [List.forall_mem_cons, allSpans_implementation] at h
    obtain ⟨protocol, methods, span⟩ := i
    rw [declareImplementations]
    exact .bind (located_declareMethods h.1.2) fun s' _ => ih h.2

section Statements

variable {n : String} {generics : List String} {params : List Param} {ret ty : Option Annotation} {body : Block}
  {is : List Implementation} {value : Expr} {span : Span}

/-- The spans of a function definition are its own and those of its parameters, its result and its body. -/
theorem allSpans_function : AllSpans V (Stmt.function n generics params ret body span).phrases ↔
    V span ∧ AllSpans V (params.map Param.phrase) ∧ (∀ a ∈ ret, AllSpans V [a.phrase]) ∧ AllSpans V [body.phrase] := by
  have hgenerics : AllSpans V (genericPhrases generics) := by
    unfold genericPhrases
    split <;> simp
  cases ret <;>
    simp [Stmt.phrases, Expr.stmtParts, Param.phrasesOf, Annotation.phrasesAfter, Annotation.phrase, Block.phrase, hgenerics]

/-- The spans of a record are its own and those of its fields and its implementations. -/
theorem allSpans_record : AllSpans V (Stmt.record n params is span).phrases ↔
    V span ∧ AllSpans V (params.map Param.phrase) ∧ ∀ i ∈ is, AllSpans V [i.phrase] := by
  simp [Stmt.phrases, Expr.stmtParts, Param.phrasesOf]

/-- The spans of a variable definition are its own and those of its annotation and its value. -/
theorem allSpans_define : AllSpans V (Stmt.define n ty value span).phrases ↔
    V span ∧ (∀ a ∈ ty, AllSpans V [a.phrase]) ∧ AllSpans V [value.phrase] := by
  cases ty <;> simp [Stmt.phrases, Expr.stmtParts, Annotation.phrasesAfter, Annotation.phrase, Expr.phrase]

/-- The spans of an expression statement are those of the expression. -/
theorem allSpans_expr : AllSpans V (Stmt.expr value).phrases ↔ AllSpans V [value.phrase] := by
  simp [Stmt.phrases, Expr.stmtParts, Expr.phrase]

/-- Declaring a function is rejected within its definition. -/
theorem located_declareFunction {s : Scope} (h : AllSpans V (Stmt.function n generics params ret body span).phrases) :
    Located V (s.declareFunction n generics params ret) := by
  obtain ⟨-, hps, hret, -⟩ := allSpans_function.1 h
  exact .bind (located_functionDeclaration _ hps hret) fun d _ => .ok _

/-- Declaring a record is rejected within its definition. -/
theorem located_declareRecord {s : Scope} (h : AllSpans V (Stmt.record n params is span).phrases) :
    Located V (s.declareRecord n params is) := by
  obtain ⟨-, hps, his⟩ := allSpans_record.1 h
  exact .bind (located_recordLayout _ hps) fun layout _ => located_declareImplementations his

end Statements

/-- The span of a statement is among its spans. -/
theorem span_of_stmt {st : Stmt} (h : AllSpans V st.phrases) : V st.span := by
  cases st with
  | function => exact (allSpans_function.1 h).1
  | record => exact (allSpans_record.1 h).1
  | define => exact (allSpans_define.1 h).1
  | expr e => exact (Phrase.allSpans_node.1 (allSpans_expr.1 h)).1.1

/-- A body is typed or rejected within one of its statements. -/
theorem located_bodyType {s : Scope} {stmts : List Stmt} (h : ∀ st ∈ stmts, AllSpans V st.phrases)
    (ihd : ∀ st ∈ stmts, ∀ s : Scope, Located V (s.declare st))
    (ihe : ∀ e, .expr e ∈ stmts → ∀ s : Scope, Located V (s.typeOf e)) : Located V (s.bodyType stmts) := by
  induction stmts generalizing s with
  | nil => exact .ok _
  | cons st stmts ih =>
    rw [List.forall_mem_cons] at h ihd
    cases stmts with
    | nil =>
      cases st with
      | expr e => exact ihe e List.mem_cons_self s
      | _ => exact .error (span_of_stmt h.1)
    | cons st' stmts =>
      rw [bodyType_cons_cons]
      exact .bind (ihd.1 s) fun s' _ => ih h.2 ihd.2 fun e he => ihe e (List.mem_cons_of_mem _ he)

/-- The type of a statement's value, and what it binds, are refused only where the statement is. -/
def DeclareLocated (V : Span → Prop) (st : Stmt) : Prop :=
  AllSpans V st.phrases → (∀ s : Scope, Located V (s.declare st)) ∧ ∀ e, st = .expr e → ∀ s : Scope, Located V (s.typeOf e)

/-- Typing is located at every node when it is at the nodes below. -/
theorem typeLocated_cases : TreeCases (TypeLocated V) (fun b => AllSpans V [b.phrase] → ∀ s : Scope, Located V (s.blockType b))
    (DeclareLocated V) where
  literal v span _ s := .ok _
  name n span h s := by
    have hspan : V span := by simpa [Expr.phrase, Expr.parts, Expr.span] using h
    rw [typeOf, nameType]
    split <;> first | exact .ok _ | exact .error hspan
  binary op l r span _ _ _ s := .ok _
  unary op e span _ _ s := .ok _
  call f args span ih h s := by
    obtain ⟨hspan, hargs⟩ : V span ∧ ∀ a ∈ args, AllSpans V [a.phrase] := by
      simpa [Expr.phrase, Expr.parts, Expr.span] using h
    exact located_typeOf_call hspan fun a ha => ih a ha (hargs a ha) s
  methodCall threading receiver m args span ihr ih h s := by
    obtain ⟨hspan, hreceiver, hargs⟩ : V span ∧ AllSpans V [receiver.phrase] ∧ ∀ a ∈ args, AllSpans V [a.phrase] := by
      simpa [Expr.phrase, Expr.parts, Expr.span] using h
    rw [typeOf_methodCall]
    refine located_typeOf_call hspan fun a ha => ?_
    rcases threading.mem_arrange.1 ha with rfl | ha
    · exact ihr hreceiver s
    · exact ih a ha (hargs a ha) s
  member target field span ih h s := by
    obtain ⟨hspan, htarget⟩ : V span ∧ AllSpans V [target.phrase] := by simpa [Expr.phrase, Expr.parts, Expr.span] using h
    rw [typeOf]
    exact .bind (ih htarget s) fun t _ => located_memberType s t hspan
  get collection key span ihc _ h s := by
    obtain ⟨-, hcollection, -⟩ : V span ∧ AllSpans V [collection.phrase] ∧ AllSpans V [key.phrase] := by
      simpa [Expr.phrase, Expr.parts, Expr.span] using h
    rw [typeOf]
    exact .bind (ihc hcollection s) fun t _ => .ok _
  vector items span _ _ s := .ok _
  map entries span _ _ s := .ok _
  block b ih h s := ih (by simpa [Expr.phrase, Expr.parts, Expr.span, Block.phrase] using h) s
  letIn bindings body span ih ihb h s := by
    obtain ⟨-, hbindings, hbody⟩ :
        V span ∧ (∀ b ∈ bindings, V b.span ∧ AllSpans V [b.value.phrase]) ∧ AllSpans V [body.phrase] := by
      simpa [Expr.phrase, Expr.parts, Expr.span, Block.phrase, Binding.phrase] using h
    rw [typeOf]
    exact .bind (located_bindAll fun b hb => ih b hb (hbindings b hb).2) fun inner _ => ihb hbody inner
  forEach vars iterable body span _ _ _ s := .ok _
  cond branches otherwise span ih iho h s := by
    cases otherwise with
    | none => exact .ok none
    | some b =>
      obtain ⟨-, hbranches, hotherwise⟩ := allSpans_cond.1 h
      have hb := hotherwise b rfl
      rw [typeOf]
      refine .bind (located_branchTypes fun b hb => (ih b hb).2 (hbranches b hb).2 s) fun o ho => ?_
      cases o with
      | none => exact .ok none
      | some ts =>
        refine .bind (iho b rfl hb s) fun o _ => ?_
        cases o with
        | none => exact .ok none
        | some t =>
          have hspan {b : Block} (hb : AllSpans V [b.phrase]) : V b.span := (Phrase.allSpans_node.1 hb).1.1
          refine located_commonBranchType (List.forall_mem_append.2 ⟨?_, ?_⟩)
          · exact spans_of_branchTypes (fun b hb => hspan (hbranches b hb).2) ho
          · simpa using hspan hb
  lambda params body span ih h s := by
    obtain ⟨-, hparams, hbody⟩ : V span ∧ AllSpans V (params.map LambdaParam.phrase) ∧ AllSpans V [body.phrase] := by
      simpa [Expr.phrase, Expr.parts, Expr.span] using h
    rw [typeOf]
    refine .bind (located_lambdaScope s hparams) fun o _ => ?_
    cases o with
    | none => exact .ok none
    | some x => exact .bind (ih hbody _) fun t _ => .ok _
  paren e span ih h s := by
    obtain ⟨-, he⟩ : V span ∧ AllSpans V [e.phrase] := by simpa [Expr.phrase, Expr.parts, Expr.span] using h
    rw [typeOf]
    exact ih he s
  stmts stmts span ih h s := by
    obtain ⟨-, hstmts⟩ : V span ∧ ∀ st ∈ stmts, AllSpans V st.phrases := by simpa [Block.phrase, Expr.blockParts] using h
    rw [blockType]
    exact located_bodyType hstmts (fun st hst => (ih st hst (hstmts st hst)).1)
      fun e he => (ih _ he (hstmts _ he)).2 e rfl
  function n generics params ret body span _ h := by
    refine ⟨fun s => ?_, by simp⟩
    rw [declare]
    exact located_declareFunction h
  record n fields is span _ h := by
    refine ⟨fun s => ?_, by simp⟩
    rw [declare]
    exact located_declareRecord h
  define n ty value span ih h := by
    obtain ⟨-, hty, hvalue⟩ := allSpans_define.1 h
    refine ⟨fun s => ?_, by simp⟩
    cases ty with
    | none => exact .bind (ih hvalue s) fun t _ => .ok _
    | some a => exact .bind (located_resolve s a (hty a rfl)) fun t _ => .ok _
  expr e ih h := by
    refine ⟨fun s => .ok _, ?_⟩
    rintro e' he
    cases he
    exact ih (allSpans_expr.1 h)

/-- An expression is typed or rejected at one of its own nodes. -/
theorem located_typeOf (s : Scope) {e : Expr} (h : AllSpans V [e.phrase]) : Located V (s.typeOf e) :=
  typeLocated_cases.all_exprs e h s

/-! ## The check of expressions and statements -/

/-- An expression is refused only where it is. -/
abbrev CheckLocated (V : Span → Prop) (e : Expr) : Prop := AllSpans V [e.phrase] → ∀ s : Scope, Located V (s.checkExpr e).verdict

abbrev BlockLocated (V : Span → Prop) (b : Block) : Prop :=
  AllSpans V [b.phrase] → ∀ s : Scope, Located V (s.checkBlock b).verdict

/-- Expressions that are checked one after the other are rejected within one of them. -/
theorem located_checkExprs {s : Scope} {es : List Expr} (ih : ∀ e ∈ es, Located V (s.checkExpr e).verdict) :
    Located V (s.checkExprs es).verdict := by
  induction es with
  | nil =>
    rw [checkExprs]
    exact .ok ()
  | cons e es ihes =>
    rw [List.forall_mem_cons] at ih
    rw [checkExprs]
    exact .bind_run ih.1 fun _ _ => ihes ih.2

/-- The entries of a map are rejected within a key or a value. -/
theorem located_checkEntries {s : Scope} {es : List Entry}
    (ih : ∀ e ∈ es, Located V (s.checkExpr e.key).verdict ∧ Located V (s.checkExpr e.value).verdict) :
    Located V (s.checkEntries es).verdict := by
  induction es with
  | nil =>
    rw [checkEntries]
    exact .ok ()
  | cons e es ihes =>
    obtain ⟨key, value⟩ := e
    rw [List.forall_mem_cons] at ih
    rw [checkEntries]
    exact .bind_run ih.1.1 fun _ _ => .bind_run ih.1.2 fun _ _ => ihes ih.2

/-- Branches are rejected within a condition or a body. -/
theorem located_checkBranches {s : Scope} {bs : List Branch}
    (ih : ∀ b ∈ bs, Located V (s.checkExpr b.condition).verdict ∧ Located V (s.checkBlock b.body).verdict) :
    Located V (s.checkBranches bs).verdict := by
  induction bs with
  | nil =>
    rw [checkBranches]
    exact .ok ()
  | cons b bs ihbs =>
    obtain ⟨condition, body⟩ := b
    rw [List.forall_mem_cons] at ih
    rw [checkBranches]
    exact .bind_run ih.1.1 fun _ _ => .bind_run ih.1.2 fun _ _ => ihbs ih.2

/-- Bindings are rejected at one of them or within its value. -/
theorem located_checkBindings {s : Scope} {bs : List Binding} (h : ∀ b ∈ bs, V b.span ∧ AllSpans V [b.value.phrase])
    (ih : ∀ b ∈ bs, CheckLocated V b.value) : Located V (s.checkBindings bs).verdict := by
  induction bs generalizing s with
  | nil =>
    rw [checkBindings]
    exact .ok s
  | cons b bs ihbs =>
    obtain ⟨n, value, span⟩ := b
    rw [List.forall_mem_cons] at h ih
    rw [checkBindings]
    exact .bind_run (located_ensureNewVariable s h.1.1) fun _ _ => .bind_run (ih.1 h.1.2 s) fun _ _ =>
      .bind_run (located_typeOf s h.1.2) fun t _ => ihbs h.2 ih.2

/-- The arguments of a call are rejected at the call or within one of them. -/
theorem located_checkArguments {s : Scope} {c : Callee} {f : String} {args : List Expr} {span : Span} (hspan : V span)
    (h : ∀ a ∈ args, AllSpans V [a.phrase]) : Located V (s.checkArguments c f args span).verdict := by
  cases c with
  | untyped => exact .ok ()
  | typed d =>
    exact .bind_run (located_argTypes fun a ha => located_typeOf s (h a ha)) fun ts _ => .bind_run (.ok ()) fun _ _ =>
      .ofCall hspan _

/-- A call is rejected at itself or within an argument. -/
theorem located_checkExpr_call {s : Scope} {f : String} {args : List Expr} {span : Span} (hspan : V span)
    (h : ∀ a ∈ args, AllSpans V [a.phrase]) (ih : ∀ a ∈ args, Located V (s.checkExpr a).verdict) :
    Located V (s.checkExpr (.call f args span)).verdict := by
  rw [checkExpr]
  exact .bind_run (located_expectCallee s hspan) fun c _ => .bind_run (located_checkExprs ih) fun _ _ =>
    located_checkArguments hspan h

/-- The type of a loop variable is rejected within what is looped over. -/
theorem located_loopVarType (s : Scope) {vars : List LocalName} {iterable : Expr} (h : AllSpans V [iterable.phrase]) :
    Located V (s.loopVarType vars iterable) := by
  unfold loopVarType
  split
  · exact .bind (located_typeOf s h) fun t _ => .ok _
  · exact .ok none

/-- The type of a variable is rejected at its annotation, or at its definition when the value does not agree. -/
theorem located_variableType (s : Scope) {n : String} {ty : Option Annotation} {value : Option Ty} {span : Span} (hspan : V span)
    (h : ∀ a ∈ ty, AllSpans V [a.phrase]) : Located V (s.variableType n ty value span) := by
  cases ty with
  | none => exact .ok value
  | some a =>
    refine .bind (located_resolve s a (h a rfl)) fun expected _ => ?_
    cases value with
    | none => exact .ok _
    | some actual =>
      dsimp only
      split
      · exact .ok _
      · exact .error hspan

/-- Statements are rejected within one of them. -/
theorem located_checkStmts {s : Scope} {stmts : List Stmt} (ih : ∀ st ∈ stmts, ∀ s : Scope, Located V (s.checkStmt st).verdict) :
    Located V (s.checkStmts stmts).verdict := by
  induction stmts generalizing s with
  | nil =>
    rw [checkStmts]
    exact .ok s
  | cons st stmts ihs =>
    rw [List.forall_mem_cons] at ih
    rw [checkStmts]
    exact .bind_run (ih.1 s) fun s' _ => ihs ih.2

/-- The methods of a record are rejected at a field, or within one of them. -/
theorem located_checkMethods {s : Scope} {receiver : Ty} {fields : List Param} {ms : List Method}
    (hfields : AllSpans V (fields.map Param.phrase)) (h : ∀ m ∈ ms, AllSpans V [m.phrase])
    (ih : ∀ m ∈ ms, BlockLocated V m.body) : Located V (s.checkMethods receiver fields ms).verdict := by
  induction ms generalizing s with
  | nil =>
    rw [checkMethods]
    exact .ok s
  | cons m ms ihms =>
    rw [List.forall_mem_cons, allSpans_method] at h
    rw [List.forall_mem_cons] at ih
    obtain ⟨n, params, ret, body, span⟩ := m
    obtain ⟨⟨hspan, hparams, hret, hbody⟩, hms⟩ := h
    rw [checkMethods]
    exact .bind_run (located_ensureNewFunction s hspan) fun _ _ => .bind_run (located_methodDeclaration s hparams hret) fun d _ =>
      .bind_run (.ok ()) fun _ _ => .bind_run (located_declareParams hfields) fun around _ =>
      .bind_run (located_declareParams hparams) fun inner _ => .bind_run (ih.1 hbody inner) fun _ _ => ihms hms ih.2

/-- The implementations of a record are rejected at a field, or within a method. -/
theorem located_checkImplementations {s : Scope} {n : String} {fields : List Param} {is : List Implementation}
    (hfields : AllSpans V (fields.map Param.phrase)) (h : ∀ i ∈ is, AllSpans V [i.phrase])
    (ih : ∀ i ∈ is, ∀ m ∈ i.methods, BlockLocated V m.body) : Located V (s.checkImplementations n fields is).verdict := by
  induction is generalizing s with
  | nil =>
    rw [checkImplementations]
    exact .ok s
  | cons i is ihis =>
    rw [List.forall_mem_cons, allSpans_implementation] at h
    rw [List.forall_mem_cons] at ih
    obtain ⟨protocol, methods, span⟩ := i
    rw [checkImplementations]
    exact .bind_run (.ok ()) fun _ _ => .bind_run (located_checkMethods hfields h.1.2 ih.1) fun s' _ => ihis h.2 ih.2

/-- Checking is located at every node when it is at the nodes below. -/
theorem checkLocated_cases : TreeCases (CheckLocated V) (BlockLocated V)
    (fun st => AllSpans V st.phrases → ∀ s : Scope, Located V (s.checkStmt st).verdict) where
  literal v span _ s := by
    rw [checkExpr]
    exact .ok ()
  name n span h s := by
    have hspan : V span := by simpa [Expr.phrase, Expr.parts, Expr.span] using h
    rw [checkExpr, Run.verdict_ofExcept, checkName]
    split
    · exact .ok ()
    · exact .error hspan
  binary op l r span ihl ihr h s := by
    obtain ⟨-, hl, hr⟩ : V span ∧ AllSpans V [l.phrase] ∧ AllSpans V [r.phrase] := by
      simpa [Expr.phrase, Expr.parts, Expr.span] using h
    rw [checkExpr]
    exact .bind_run (ihl hl s) fun _ _ => ihr hr s
  unary op e span ih h s := by
    obtain ⟨-, he⟩ : V span ∧ AllSpans V [e.phrase] := by simpa [Expr.phrase, Expr.parts, Expr.span] using h
    rw [checkExpr]
    exact ih he s
  call f args span ih h s := by
    obtain ⟨hspan, hargs⟩ : V span ∧ ∀ a ∈ args, AllSpans V [a.phrase] := by
      simpa [Expr.phrase, Expr.parts, Expr.span] using h
    exact located_checkExpr_call hspan hargs fun a ha => ih a ha (hargs a ha) s
  methodCall threading receiver m args span ihr ih h s := by
    obtain ⟨hspan, hreceiver, hargs⟩ : V span ∧ AllSpans V [receiver.phrase] ∧ ∀ a ∈ args, AllSpans V [a.phrase] := by
      simpa [Expr.phrase, Expr.parts, Expr.span] using h
    have harrange : ∀ a ∈ threading.arrange receiver args, AllSpans V [a.phrase] ∧ Located V (s.checkExpr a).verdict := by
      intro a ha
      rcases threading.mem_arrange.1 ha with rfl | ha
      · exact ⟨hreceiver, ihr hreceiver s⟩
      · exact ⟨hargs a ha, ih a ha (hargs a ha) s⟩
    rw [verdict_checkExpr_methodCall]
    exact located_checkExpr_call hspan (fun a ha => (harrange a ha).1) fun a ha => (harrange a ha).2
  member target field span ih h s := by
    obtain ⟨hspan, htarget⟩ : V span ∧ AllSpans V [target.phrase] := by simpa [Expr.phrase, Expr.parts, Expr.span] using h
    rw [checkExpr]
    exact .bind_run (ih htarget s) fun _ _ => .bind_run (located_typeOf s htarget) fun t _ =>
      .bind_run (located_memberType s t hspan) fun _ _ => .ok ()
  get collection key span ihc ihk h s := by
    obtain ⟨-, hcollection, hkey⟩ : V span ∧ AllSpans V [collection.phrase] ∧ AllSpans V [key.phrase] := by
      simpa [Expr.phrase, Expr.parts, Expr.span] using h
    rw [checkExpr]
    exact .bind_run (ihc hcollection s) fun _ _ => ihk hkey s
  vector items span ih h s := by
    obtain ⟨-, hitems⟩ : V span ∧ ∀ e ∈ items, AllSpans V [e.phrase] := by simpa [Expr.phrase, Expr.parts, Expr.span] using h
    rw [checkExpr]
    exact located_checkExprs fun e he => ih e he (hitems e he) s
  map entries span ih h s := by
    obtain ⟨-, hentries⟩ : V span ∧ ∀ e ∈ entries, AllSpans V [e.key.phrase] ∧ AllSpans V [e.value.phrase] := by
      simpa [Expr.phrase, Expr.parts, Expr.span, Entry.phrases] using h
    rw [checkExpr]
    exact located_checkEntries fun e he => ⟨(ih e he).1 (hentries e he).1 s, (ih e he).2 (hentries e he).2 s⟩
  block b ih h s := by
    rw [checkExpr]
    exact ih (by simpa [Expr.phrase, Expr.parts, Expr.span, Block.phrase] using h) s
  letIn bindings body span ih ihb h s := by
    obtain ⟨-, hbindings, hbody⟩ :
        V span ∧ (∀ b ∈ bindings, V b.span ∧ AllSpans V [b.value.phrase]) ∧ AllSpans V [body.phrase] := by
      simpa [Expr.phrase, Expr.parts, Expr.span, Block.phrase, Binding.phrase] using h
    rw [checkExpr]
    exact .bind_run (located_checkBindings hbindings ih) fun inner _ => ihb hbody inner
  forEach vars iterable body span ih ihb h s := by
    obtain ⟨-, hvars, hiterable, hbody⟩ : V span ∧ AllSpans V (vars.map LocalName.phrase) ∧ AllSpans V [iterable.phrase] ∧
        AllSpans V [body.phrase] := by
      simpa [Expr.phrase, Expr.parts, Expr.span, Block.phrase] using h
    rw [checkExpr]
    exact .bind_run (ih hiterable s) fun _ _ => .bind_run (located_loopVarType s hiterable) fun t _ =>
      .bind_run (located_declareLoopVars hvars) fun inner _ => ihb hbody inner
  cond branches otherwise span ih iho h s := by
    obtain ⟨-, hbranches, hotherwise⟩ := allSpans_cond.1 h
    rw [checkExpr]
    refine .bind_run (located_checkBranches fun b hb => ?_) fun _ _ => ?_
    · exact ⟨(ih b hb).1 (hbranches b hb).1 _, (ih b hb).2 (hbranches b hb).2 _⟩
    · cases otherwise with
      | none =>
        rw [checkBlock?]
        exact .ok ()
      | some b =>
        rw [checkBlock?]
        exact iho b rfl (hotherwise b rfl) _
  lambda params body span ih h s := by
    obtain ⟨-, hparams, hbody⟩ : V span ∧ AllSpans V (params.map LambdaParam.phrase) ∧ AllSpans V [body.phrase] := by
      simpa [Expr.phrase, Expr.parts, Expr.span] using h
    rw [checkExpr]
    exact .bind_run (located_declareLambdaParams hparams) fun inner _ => ih hbody inner
  paren e span ih h s := by
    obtain ⟨-, he⟩ : V span ∧ AllSpans V [e.phrase] := by simpa [Expr.phrase, Expr.parts, Expr.span] using h
    rw [checkExpr]
    exact ih he s
  stmts stmts span ih h s := by
    obtain ⟨-, hstmts⟩ : V span ∧ ∀ st ∈ stmts, AllSpans V st.phrases := by simpa [Block.phrase, Expr.blockParts] using h
    rw [checkBlock]
    exact .bind_run (located_checkStmts fun st hst => ih st hst (hstmts st hst)) fun _ _ => .ok ()
  function n generics params ret body span ih h s := by
    obtain ⟨hspan, hparams, hret, hbody⟩ := allSpans_function.1 h
    rw [checkStmt]
    exact .bind_run (located_ensureNewFunction s hspan) fun _ _ =>
      .bind_run (located_functionDeclaration _ hparams hret) fun d _ =>
      .bind_run (.ok ()) fun _ _ => .bind_run (located_declareParams hparams) fun inner _ => .bind_run (ih hbody inner) fun _ _ =>
      .ok _
  record n fields is span ih h s := by
    obtain ⟨hspan, hfields, his⟩ := allSpans_record.1 h
    rw [checkStmt]
    exact .bind_run (located_ensureNewRecord s hspan) fun _ _ => .bind_run (located_ensureDistinctFields hspan) fun _ _ =>
      .bind_run (located_recordLayout _ hfields) fun layout _ => .bind_run (.ok ()) fun _ _ =>
      located_checkImplementations hfields his ih
  define n ty value span ih h s := by
    obtain ⟨hspan, hty, hvalue⟩ := allSpans_define.1 h
    rw [checkStmt]
    exact .bind_run (located_ensureNewVariable s hspan) fun _ _ => .bind_run (ih hvalue s) fun _ _ =>
      .bind_run (located_typeOf s hvalue) fun t _ => .bind_run (located_variableType s hspan hty) fun u _ =>
      .bind_run (.ok ()) fun _ _ => .ok _
  expr e ih h s := by
    rw [checkStmt]
    exact .bind_run (ih (allSpans_expr.1 h) s) fun _ _ => .ok s

/-- Imports that have paths are not rejected for an error of the checker. -/
theorem located_declareImports {s : Scope} {is : List Import} (h : ∀ i ∈ is, i.path ≠ []) :
    Located V (s.declareImports is).verdict := by
  induction is generalizing s with
  | nil => exact .ok s
  | cons i is ih =>
    rw [List.forall_mem_cons] at h
    rw [declareImports, Import.binding?, List.getLast?_eq_some_getLast h.1]
    exact .bind_run (.ok ()) fun _ _ => ih h.2

end Scope

/-- A program whose imports have paths is rejected at one of its own spans, and never for an error of the checker. -/
theorem Program.located_validate {V : Span → Prop} {p : Program} (h : AllSpans V p.phrases)
    (hpaths : ∀ i ∈ p.imports, i.path ≠ []) : Located V p.validate.verdict := by
  have hbody : ∀ st ∈ p.body, AllSpans V st.phrases := by
    simp only [phrases, Phrase.allSpans_append, Expr.stmtPhrases_eq, Phrase.allSpans_flatMap] at h
    exact h.2
  exact .bind_run (Scope.located_declareImports hpaths) fun s _ =>
    .bind_run (Scope.located_checkStmts fun st hst => Scope.checkLocated_cases.all_stmts st (hbody st hst)) fun _ _ => .ok ()

end Gradual
