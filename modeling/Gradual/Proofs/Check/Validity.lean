import Mathlib.Logic.Unique
import Gradual.Check.Validity
import Gradual.Proofs.Check.Typing

/-!
# What the check of each construct asks

For every construct, its check succeeds exactly when the checks of its parts do, each at its scope, and the conditions of the
construct itself hold. A method call is checked as the call of the method with the receiver among the arguments
(`checkExpr_methodCall`). The check of statements and the typing of statements bind the same
(`declare_of_checkStmt`, `bindAll_of_checkBindings`).
-/

namespace Gradual

/-! ## Runs one after the other -/

namespace Run

variable {ε α β γ : Type}

/-- A step that does nothing is no step. -/
theorem pure_bind (a : α) (f : α → Run ε β) : pure a >>= f = f a := rfl

/-- A last step that does nothing is no step. -/
theorem bind_pure_unit (r : Run ε Unit) : (r >>= fun _ => pure ()) = r := by
  obtain ⟨v, out⟩ := r
  cases v with
  | error e => rfl
  | ok a => exact congrArg (Run.mk (.ok a)) (List.append_nil out)

/-- What runs emit one after the other is put end to end, however they are grouped. -/
theorem bind_assoc (r : Run ε α) (f : α → Run ε β) (g : β → Run ε γ) : r >>= f >>= g = r >>= fun a => f a >>= g := by
  obtain ⟨v, out⟩ := r
  cases v with
  | error e => rfl
  | ok a =>
    change Run.andThen ⟨(f a).verdict, out ++ (f a).emitted⟩ g = ⟨((f a).andThen g).verdict, out ++ ((f a).andThen g).emitted⟩
    simp only [Run.andThen]
    cases (f a).verdict with
    | error e => rfl
    | ok b => simp only [List.append_assoc]

end Run

namespace Scope

variable {s : Scope}

-- The equations of the walk are made here, once: the proofs below all ask for them.
attribute [local simp] checkExpr checkExprs checkEntries checkBindings checkBranches checkBlock? checkBlock checkStmts
  checkMethods checkImplementations checkStmt

/-! ## Lists -/

/-- Expressions are accepted when each of them is. -/
theorem checkExprs_ok_iff {es : List Expr} :
    (s.checkExprs es).verdict = .ok () ↔ ∀ e ∈ es, (s.checkExpr e).verdict = .ok () := by
  induction es with
  | nil => simp
  | cons e es ih => rw [checkExprs, Run.verdict_bind, seq_eq_ok_iff, List.forall_mem_cons, ih]

/-- The entries of a map are accepted when their keys and their values are. -/
theorem checkEntries_ok_iff {es : List Entry} : (s.checkEntries es).verdict = .ok () ↔
    ∀ e ∈ es, (s.checkExpr e.key).verdict = .ok () ∧ (s.checkExpr e.value).verdict = .ok () := by
  induction es with
  | nil => simp
  | cons e es ih =>
    obtain ⟨key, value⟩ := e
    rw [checkEntries, Run.verdict_bind, seq_eq_ok_iff, Run.verdict_bind, seq_eq_ok_iff, List.forall_mem_cons, ih, and_assoc]

/-- Branches are accepted when their conditions and their bodies are. -/
theorem checkBranches_ok_iff {bs : List Branch} : (s.checkBranches bs).verdict = .ok () ↔
    ∀ b ∈ bs, (s.checkExpr b.condition).verdict = .ok () ∧ (s.checkBlock b.body).verdict = .ok () := by
  induction bs with
  | nil => simp
  | cons b bs ih =>
    obtain ⟨condition, body⟩ := b
    rw [checkBranches, Run.verdict_bind, seq_eq_ok_iff, Run.verdict_bind, seq_eq_ok_iff, List.forall_mem_cons, ih, and_assoc]

/-- A block that may be missing is accepted when it is missing or accepted. -/
theorem checkBlock?_ok_iff {o : Option Block} :
    (s.checkBlock? o).verdict = .ok () ↔ ∀ b ∈ o, (s.checkBlock b).verdict = .ok () := by
  cases o <;> simp

/-! ## Expressions -/

/-- A name is accepted when it is bound to a value. -/
theorem checkExpr_name_iff {n : String} {span : Span} :
    (s.checkExpr (.name n span)).verdict = .ok () ↔ (s.value? n).isSome = true := by
  rw [checkExpr, Run.verdict_ofExcept, checkName]
  exact ite_eq_ok_iff

/-- An operation is accepted when both operands are. -/
theorem checkExpr_binary_iff {op : BinaryOp} {l r : Expr} {span : Span} : (s.checkExpr (.binary op l r span)).verdict = .ok () ↔
    (s.checkExpr l).verdict = .ok () ∧ (s.checkExpr r).verdict = .ok () := by
  rw [checkExpr, Run.verdict_bind, seq_eq_ok_iff]

/-- Arguments are checked against what the callee declares, if it declares something. -/
theorem checkArguments_ok_iff {c : Callee} {f : String} {args : List Expr} {span : Span} :
    (s.checkArguments c f args span).verdict = .ok () ↔
      ∀ d, c = .typed d → ∃ ts, s.argTypes d 0 args = .ok ts ∧ d.checkCall ts = .ok () := by
  cases c with
  | untyped => simp [checkArguments]
  | typed d =>
    simp only [checkArguments, Run.verdict_bind, Run.verdict_ofExcept, Run.verdict_log, bind_eq_ok_iff, Callee.typed.injEq,
      forall_eq', Outcome.ofCall, mapError_eq_ok_iff, exists_const, true_and]

/-- A call is accepted when its name can be called and its arguments are accepted, by themselves and by the callee. -/
theorem checkExpr_call_iff {f : String} {args : List Expr} {span : Span} : (s.checkExpr (.call f args span)).verdict = .ok () ↔
    ∃ c, s.callee? f = some c ∧ (∀ e ∈ args, (s.checkExpr e).verdict = .ok ()) ∧
      (s.checkArguments c f args span).verdict = .ok () := by
  simp only [checkExpr, Run.verdict_bind, Run.verdict_ofExcept, expectCallee]
  cases s.callee? f with
  | none => simp [bind, Except.bind]
  | some c => rw [bind_eq_ok_iff]; simp [seq_eq_ok_iff, checkExprs_ok_iff]

/-- The last of some expressions is checked after the others. -/
theorem checkExprs_concat (es : List Expr) (e : Expr) :
    s.checkExprs (es ++ [e]) = s.checkExprs es >>= fun _ => s.checkExpr e := by
  induction es with
  | nil => simp only [List.nil_append, checkExprs, Run.pure_bind, Run.bind_pure_unit]
  | cons e' es ih => simp only [List.cons_append, checkExprs, ih, Run.bind_assoc]

/-- The check of a method call is that of the call of the method with the receiver among the arguments. -/
theorem checkExpr_methodCall (threading : Threading) (receiver : Expr) (m : String) (args : List Expr) (span : Span) :
    s.checkExpr (.methodCall threading receiver m args span) = s.checkExpr (.call m (threading.arrange receiver args) span) := by
  cases threading with
  | first => simp only [checkExpr, Threading.arrange, checkExprs, Run.bind_assoc]
  | last => simp only [checkExpr, Threading.arrange, checkExprs_concat, Run.bind_assoc]

/-- A method call is accepted, or rejected for the same reason, as the call of the method with the receiver among
the arguments. -/
theorem verdict_checkExpr_methodCall (threading : Threading) (receiver : Expr) (m : String) (args : List Expr) (span : Span) :
    (s.checkExpr (.methodCall threading receiver m args span)).verdict =
      (s.checkExpr (.call m (threading.arrange receiver args) span)).verdict := by
  rw [checkExpr_methodCall]

/-- A member is accepted when its target is, and the target's type, where it is known to be a record, has the field. -/
theorem checkExpr_member_iff {target : Expr} {field : String} {span : Span} :
    (s.checkExpr (.member target field span)).verdict = .ok () ↔ (s.checkExpr target).verdict = .ok () ∧
      ∃ t, s.typeOf target = .ok t ∧ ∃ m, s.memberType t field span = .ok m := by
  simp only [checkExpr, Run.verdict_bind, Run.verdict_ofExcept, Run.verdict_pure]
  rw [seq_eq_ok_iff]
  simp [bind_eq_ok_iff]

/-- An access by key is accepted when the collection and the key are. -/
theorem checkExpr_get_iff {collection key : Expr} {span : Span} :
    (s.checkExpr (.get collection key span)).verdict = .ok () ↔
      (s.checkExpr collection).verdict = .ok () ∧ (s.checkExpr key).verdict = .ok () := by
  rw [checkExpr, Run.verdict_bind, seq_eq_ok_iff]

/-- A let is accepted when its bindings are, and its body is where they are bound. -/
theorem checkExpr_letIn_iff {bindings : List Binding} {body : Block} {span : Span} :
    (s.checkExpr (.letIn bindings body span)).verdict = .ok () ↔
      ∃ inner, (s.child.checkBindings bindings).verdict = .ok inner ∧ (inner.checkBlock body).verdict = .ok () := by
  rw [checkExpr, Run.verdict_bind, bind_eq_ok_iff]

/-- A loop is accepted when what it loops over is, and its body is where its variables are bound. -/
theorem checkExpr_forEach_iff {vars : List LocalName} {iterable : Expr} {body : Block} {span : Span} :
    (s.checkExpr (.forEach vars iterable body span)).verdict = .ok () ↔ (s.checkExpr iterable).verdict = .ok () ∧
      ∃ t, s.loopVarType vars iterable = .ok t ∧
        ∃ inner, s.child.declareLoopVars t vars = .ok inner ∧ (inner.checkBlock body).verdict = .ok () := by
  simp only [checkExpr, Run.verdict_bind, Run.verdict_ofExcept]
  rw [seq_eq_ok_iff]
  simp only [bind_eq_ok_iff]

/-- A conditional is accepted when its branches and its last branch are, at a level of their own. -/
theorem checkExpr_cond_iff {branches : List Branch} {otherwise : Option Block} {span : Span} :
    (s.checkExpr (.cond branches otherwise span)).verdict = .ok () ↔
      (∀ b ∈ branches, (s.child.checkExpr b.condition).verdict = .ok () ∧ (s.child.checkBlock b.body).verdict = .ok ()) ∧
        ∀ b ∈ otherwise, (s.child.checkBlock b).verdict = .ok () := by
  rw [checkExpr, Run.verdict_bind, seq_eq_ok_iff, checkBranches_ok_iff, checkBlock?_ok_iff]

/-- A lambda is accepted when its parameters are, and its body is where they are bound. -/
theorem checkExpr_lambda_iff {params : List LambdaParam} {body : Expr} {span : Span} :
    (s.checkExpr (.lambda params body span)).verdict = .ok () ↔
      ∃ inner, s.child.declareLambdaParams params = .ok inner ∧ (inner.checkExpr body).verdict = .ok () := by
  rw [checkExpr, Run.verdict_bind, Run.verdict_ofExcept, bind_eq_ok_iff]

/-! ## Blocks and statements -/

/-- A block is accepted when its statements are, at a level of their own. -/
theorem checkBlock_iff {stmts : List Stmt} {span : Span} :
    (s.checkBlock ⟨stmts, span⟩).verdict = .ok () ↔ ∃ r, (s.child.checkStmts stmts).verdict = .ok r := by
  simp [bind_eq_ok_iff]

/-- Statements are accepted one after the other, each in the scope that those before it leave. -/
theorem checkStmts_cons_iff {st : Stmt} {stmts : List Stmt} {r : Scope} : (s.checkStmts (st :: stmts)).verdict = .ok r ↔
    ∃ s₁, (s.checkStmt st).verdict = .ok s₁ ∧ (s₁.checkStmts stmts).verdict = .ok r := by
  rw [checkStmts, Run.verdict_bind, bind_eq_ok_iff]

/-- Statements are accepted when the first one is, and the others are in the scope that it leaves. -/
theorem exists_checkStmts_cons_iff {st : Stmt} {stmts : List Stmt} : (∃ r, (s.checkStmts (st :: stmts)).verdict = .ok r) ↔
    ∃ s₁, (s.checkStmt st).verdict = .ok s₁ ∧ ∃ r, (s₁.checkStmts stmts).verdict = .ok r := by
  constructor
  · rintro ⟨r, hr⟩
    obtain ⟨s₁, hs₁, hr⟩ := checkStmts_cons_iff.1 hr
    exact ⟨s₁, hs₁, r, hr⟩
  · rintro ⟨s₁, hs₁, r, hr⟩
    exact ⟨r, checkStmts_cons_iff.2 ⟨s₁, hs₁, hr⟩⟩

/-- A binding is accepted when its name is new, its value is accepted and has a type or none, and the other bindings are accepted
after it. -/
theorem checkBindings_cons_iff {n : String} {value : Expr} {span : Span} {bs : List Binding} {r : Scope} :
    (s.checkBindings (⟨n, value, span⟩ :: bs)).verdict = .ok r ↔ s.ensureNewVariable n span = .ok () ∧
      (s.checkExpr value).verdict = .ok () ∧
        ∃ t, s.typeOf value = .ok t ∧ ((s.addVariable n t).checkBindings bs).verdict = .ok r := by
  simp only [checkBindings, Run.verdict_bind, Run.verdict_ofExcept]
  rw [seq_eq_ok_iff, seq_eq_ok_iff, bind_eq_ok_iff]

/-- An expression statement is accepted when the expression is, and leaves the scope as it was. -/
theorem checkStmt_expr_iff {e : Expr} {r : Scope} :
    (s.checkStmt (.expr e)).verdict = .ok r ↔ (s.checkExpr e).verdict = .ok () ∧ s = r := by
  rw [checkStmt, Run.verdict_bind, seq_eq_ok_iff, Run.verdict_pure, Except.ok.injEq]

/-- A definition is accepted when its name is new, its value is accepted, and the value implements its annotation. -/
theorem checkStmt_define_iff {n : String} {ty : Option Annotation} {value : Expr} {span : Span} {r : Scope} :
    (s.checkStmt (.define n ty value span)).verdict = .ok r ↔ s.ensureNewVariable n span = .ok () ∧
      (s.checkExpr value).verdict = .ok () ∧ ∃ actual, s.typeOf value = .ok actual ∧
        ∃ t, s.variableType n ty actual span = .ok t ∧ s.addVariable n t = r := by
  simp only [checkStmt, Run.verdict_bind, Run.verdict_ofExcept, Run.verdict_log, Run.verdict_pure]
  rw [seq_eq_ok_iff, seq_eq_ok_iff]
  simp [bind_eq_ok_iff]

/-- A function is accepted when its name is new, its annotations stand for types, and its body is accepted where the function, its
generic parameters and its parameters are bound. -/
theorem checkStmt_function_iff {n : String} {generics : List String} {params : List Param} {ret : Option Annotation}
    {body : Block} {span : Span} {r : Scope} :
    (s.checkStmt (.function n generics params ret body span)).verdict = .ok r ↔ s.ensureNewFunction n span = .ok () ∧
      ∃ d, (s.withGenerics n generics).functionDeclaration n generics params ret = .ok d ∧
        ∃ inner, ((s.addFunction n d).withGenerics n generics).child.declareParams params = .ok inner ∧
          (inner.checkBlock body).verdict = .ok () ∧ s.addFunction n d = r := by
  simp only [checkStmt, Run.verdict_bind, Run.verdict_ofExcept, Run.verdict_log, Run.verdict_pure]
  simp only [bind_eq_ok_iff, Unique.exists_iff, PUnit.default_eq_unit, true_and, Except.ok.injEq]

/-- A method is accepted when its name is new, its signature has a meaning, and its body is accepted inside the fields and the
parameters. -/
theorem checkMethods_cons_iff {receiver : Ty} {fields : List Param} {n : String} {params : List Param}
    {ret : Option Annotation} {body : Block} {span : Span} {ms : List Method} {r : Scope} :
    (s.checkMethods receiver fields (⟨n, params, ret, body, span⟩ :: ms)).verdict = .ok r ↔
      s.ensureNewFunction n span = .ok () ∧ ∃ d, s.methodDeclaration receiver n params ret = .ok d ∧
        ∃ around, (s.addFunction n d).child.declareParams fields = .ok around ∧
          ∃ inner, (around.child.addVariable "self" (some receiver)).declareParams params = .ok inner ∧
            (inner.checkBlock body).verdict = .ok () ∧
              ((s.addFunction n d).checkMethods receiver fields ms).verdict = .ok r := by
  simp only [checkMethods, Run.verdict_bind, Run.verdict_ofExcept, Run.verdict_log]
  simp only [bind_eq_ok_iff, Unique.exists_iff, PUnit.default_eq_unit, true_and]

/-- Implementations are accepted one after the other. -/
theorem checkImplementations_cons_iff {n : String} {fields : List Param} {protocol : String} {methods : List Method}
    {span : Span} {is : List Implementation} {r : Scope} :
    (s.checkImplementations n fields (⟨protocol, methods, span⟩ :: is)).verdict = .ok r ↔
      ∃ s₁, (s.checkMethods (.simple n) fields methods).verdict = .ok s₁ ∧
        (s₁.checkImplementations n fields is).verdict = .ok r := by
  simp [bind_eq_ok_iff]

/-- A record is accepted when its name is new, its fields differ and their annotations stand for types, and its methods are
accepted where its type and its constructor are bound. -/
theorem checkStmt_record_iff {n : String} {fields : List Param} {is : List Implementation} {span : Span} {r : Scope} :
    (s.checkStmt (.record n fields is span)).verdict = .ok r ↔ s.ensureNewRecord n span = .ok () ∧
      ensureDistinctFields fields span = .ok () ∧ ∃ layout, (s.addType n (.simple n)).recordLayout n fields = .ok layout ∧
        ((((s.addType n (.simple n)).addFunction n (some layout.constructor)).addRecord layout).checkImplementations n fields
          is).verdict = .ok r := by
  simp only [checkStmt, Run.verdict_bind, Run.verdict_ofExcept, Run.verdict_log]
  rw [seq_eq_ok_iff, seq_eq_ok_iff]
  simp [bind_eq_ok_iff]

/-! ## Checking and typing bind the same -/

/-- The check of bindings binds what their typing binds. -/
theorem bindAll_of_checkBindings {bs : List Binding} {r : Scope} (h : (s.checkBindings bs).verdict = .ok r) :
    s.bindAll bs = .ok r := by
  induction bs generalizing s with
  | nil => exact h
  | cons b bs ih =>
    obtain ⟨n, value, span⟩ := b
    obtain ⟨-, -, t, ht, h⟩ := checkBindings_cons_iff.1 h
    rw [bindAll, ht]
    exact ih h

/-- The parameters of an accepted lambda have types where all are annotated, and then typing binds them as the check does. -/
theorem lambdaScope_of_declareLambdaParams {inner r : Scope} {ps : List LambdaParam}
    (hs : ∀ n, s.type? n = inner.type? n) (h : inner.declareLambdaParams ps = .ok r) :
    s.lambdaScope inner ps = .ok none ∨ ∃ ts, s.lambdaScope inner ps = .ok (some (ts, r)) := by
  induction ps generalizing inner with
  | nil =>
    obtain rfl := Except.ok.inj h
    exact Or.inr ⟨[], rfl⟩
  | cons p ps ih =>
    rw [declareLambdaParams, seq_eq_ok_iff] at h
    obtain ⟨-, h⟩ := h
    cases hp : p.ty with
    | none => exact Or.inl (by rw [lambdaScope, hp])
    | some a =>
      rw [hp] at h
      obtain ⟨t, ht, h⟩ := bind_eq_ok_iff.1 h
      have hs' : ∀ n, s.type? n = (inner.addParameter p.name t).type? n := by
        intro n
        rw [hs n, type?_addParameter]
      rw [← resolve_congr hs] at ht
      simp only [lambdaScope, hp, ht]
      rcases ih hs' h with h | ⟨ts, h⟩
      · exact Or.inl (by rw [ok_bind, h]; rfl)
      · exact Or.inr ⟨t :: ts, by rw [ok_bind, h]; rfl⟩

/-- The check of methods declares what their typing declares. -/
theorem declareMethods_of_checkMethods {receiver : Ty} {fields : List Param} {ms : List Method} {r : Scope}
    (h : (s.checkMethods receiver fields ms).verdict = .ok r) : s.declareMethods receiver ms = .ok r := by
  induction ms generalizing s with
  | nil => exact h
  | cons m ms ih =>
    obtain ⟨n, params, ret, body, span⟩ := m
    obtain ⟨-, d, hd, around, -, inner, -, -, h⟩ := checkMethods_cons_iff.1 h
    rw [declareMethods, hd]
    exact ih h

/-- The check of implementations declares what their typing declares. -/
theorem declareImplementations_of_checkImplementations {n : String} {fields : List Param} {is : List Implementation} {r : Scope}
    (h : (s.checkImplementations n fields is).verdict = .ok r) : s.declareImplementations (.simple n) is = .ok r := by
  induction is generalizing s with
  | nil => exact h
  | cons i is ih =>
    obtain ⟨protocol, methods, span⟩ := i
    obtain ⟨s₁, hs₁, h⟩ := checkImplementations_cons_iff.1 h
    rw [declareImplementations, declareMethods_of_checkMethods hs₁]
    exact ih h

/-- An annotated variable has the type its annotation stands for, which its value must implement where the value's type
is known. -/
theorem variableType_annotated_iff {n : String} {a : Annotation} {value t : Option Ty} {span : Span} :
    s.variableType n (some a) value span = .ok t ↔ ∃ expected, s.resolve a = .ok expected ∧
      (∀ actual, value = some actual → actual.implements expected = true) ∧ some expected = t := by
  rw [variableType, bind_eq_ok_iff]
  refine exists_congr fun expected => and_congr_right' ?_
  cases value with
  | none => simp [pure, Except.pure]
  | some actual => by_cases hfit : actual.implements expected = true <;> simp [hfit, pure, Except.pure]

/-- A statement that is accepted binds what its typing binds. -/
theorem declare_of_checkStmt {st : Stmt} {r : Scope} (h : (s.checkStmt st).verdict = .ok r) : s.declare st = .ok r := by
  cases st with
  | expr e =>
    obtain ⟨-, rfl⟩ := checkStmt_expr_iff.1 h
    rfl
  | define n ty value span =>
    obtain ⟨-, -, actual, ha, t, ht, rfl⟩ := checkStmt_define_iff.1 h
    cases ty with
    | none =>
      obtain rfl := Except.ok.inj ht
      rw [declare, ha]
      rfl
    | some a =>
      obtain ⟨expected, he, -, rfl⟩ := variableType_annotated_iff.1 ht
      rw [declare, he]
      rfl
  | function n generics params ret body span =>
    obtain ⟨-, d, hd, inner, -, -, rfl⟩ := checkStmt_function_iff.1 h
    rw [declare, declareFunction, hd]
    rfl
  | record n fields is span =>
    obtain ⟨-, -, layout, hl, h⟩ := checkStmt_record_iff.1 h
    rw [declare, declareRecord, hl]
    exact declareImplementations_of_checkImplementations h

end Scope

end Gradual
