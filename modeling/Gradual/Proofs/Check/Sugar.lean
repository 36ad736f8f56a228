import Gradual.Proofs.Check.Typing
import Gradual.Proofs.Check.Validity
import Gradual.Proofs.Tree.Desugar

/-!
# Method calls are sugar

A method call is typed and checked as the call of the method with the receiver among the arguments (`typeOf_methodCall`,
`checkExpr_methodCall`), so a program and the same with plain calls for its method calls have one run: one verdict, with its cause
and its place, and the same events on the way (`method_calls_sugar`). The one place where the form of an argument matters, the
passing of a generic function by its name, is not touched: a name stays a name, and a method call was none.
-/

namespace Gradual

namespace Scope

variable {s : Scope}

-- The equations of the walk are made here, once: the proofs below all ask for them.
attribute [local simp] checkExpr checkExprs checkEntries checkBindings checkBranches checkBlock? checkBlock checkStmts
  checkMethods checkImplementations checkStmt

/-! ## What plain calls keep -/

/-- At every scope an expression is typed and checked as it is with plain calls. -/
structure PlainExpr (e : Expr) : Prop where
  type (s : Scope) : s.typeOf e.desugar = s.typeOf e
  run (s : Scope) : s.checkExpr e.desugar = s.checkExpr e

/-- At every scope a block is typed and checked as it is with plain calls. -/
structure PlainBlock (b : Block) : Prop where
  type (s : Scope) : s.blockType b.desugar = s.blockType b
  run (s : Scope) : s.checkBlock b.desugar = s.checkBlock b

/-- At every scope a statement binds the same, and is typed and checked, as with plain calls. -/
structure PlainStmt (st : Stmt) : Prop where
  declare (s : Scope) : s.declare st.desugar = s.declare st
  type (s : Scope) : s.bodyType [st.desugar] = s.bodyType [st]
  run (s : Scope) : s.checkStmt st.desugar = s.checkStmt st

/-! ### Calls -/

/-- Only a name passes a signature, and no other expression becomes one. -/
theorem passedSignature?_desugar (d : Declaration) (i : Nat) (e : Expr) :
    s.passedSignature? d i e.desugar = s.passedSignature? d i e := by
  cases e <;> simp only [Expr.desugar, passedSignature?]

/-- Arguments have the same types with plain calls in them. -/
theorem argTypes_desugar {d : Declaration} {i : Nat} {es : List Expr} (h : ∀ e ∈ es, PlainExpr e) :
    s.argTypes d i (es.map Expr.desugar) = s.argTypes d i es := by
  induction es generalizing i with
  | nil => rfl
  | cons e es ih =>
    obtain ⟨he, hes⟩ := List.forall_mem_cons.1 h
    simp only [List.map_cons, argTypes, argType, passedSignature?_desugar, he.type, ih hes]

/-- Expressions are checked alike with plain calls in them. -/
theorem checkExprs_desugar {es : List Expr} (h : ∀ e ∈ es, PlainExpr e) :
    s.checkExprs (es.map Expr.desugar) = s.checkExprs es := by
  induction es with
  | nil => rfl
  | cons e es ih =>
    obtain ⟨he, hes⟩ := List.forall_mem_cons.1 h
    simp only [List.map_cons, checkExprs, he.run, ih hes]

/-- A call has the same type with plain calls in its arguments. -/
theorem typeOf_call_desugar {f : String} {args : List Expr} {span : Span} (h : ∀ e ∈ args, PlainExpr e) :
    s.typeOf (.call f (args.map Expr.desugar) span) = s.typeOf (.call f args span) := by
  simp only [typeOf, argTypes_desugar h]

/-- A call is checked alike with plain calls in its arguments. -/
theorem checkExpr_call_desugar {f : String} {args : List Expr} {span : Span} (h : ∀ e ∈ args, PlainExpr e) :
    s.checkExpr (.call f (args.map Expr.desugar) span) = s.checkExpr (.call f args span) := by
  simp only [checkExpr, checkExprs_desugar h, checkArguments, argTypes_desugar h]

/-! ### Lists of parts -/

/-- The entries of a map are checked alike with plain calls in them. -/
theorem checkEntries_desugar {es : List Entry} (h : ∀ e ∈ es, PlainExpr e.key ∧ PlainExpr e.value) :
    s.checkEntries (desugarEntries es) = s.checkEntries es := by
  induction es with
  | nil => rfl
  | cons e es ih =>
    obtain ⟨⟨hk, hv⟩, hes⟩ := List.forall_mem_cons.1 h
    obtain ⟨key, value⟩ := e
    simp only [desugarEntries, checkEntries, hk.run, hv.run, ih hes]

/-- Bindings bind the same with plain calls in them. -/
theorem bindAll_desugar {bs : List Binding} (h : ∀ b ∈ bs, PlainExpr b.value) (s : Scope) :
    s.bindAll (desugarBindings bs) = s.bindAll bs := by
  induction bs generalizing s with
  | nil => rfl
  | cons b bs ih =>
    obtain ⟨hb, hbs⟩ := List.forall_mem_cons.1 h
    obtain ⟨n, value, span⟩ := b
    simp only [desugarBindings, bindAll, hb.type, ih hbs]

/-- Bindings are checked alike with plain calls in them. -/
theorem checkBindings_desugar {bs : List Binding} (h : ∀ b ∈ bs, PlainExpr b.value) (s : Scope) :
    s.checkBindings (desugarBindings bs) = s.checkBindings bs := by
  induction bs generalizing s with
  | nil => rfl
  | cons b bs ih =>
    obtain ⟨hb, hbs⟩ := List.forall_mem_cons.1 h
    obtain ⟨n, value, span⟩ := b
    simp only [desugarBindings, checkBindings, hb.type, hb.run, ih hbs]

/-- Branches have the same types with plain calls in them. -/
theorem branchTypes_desugar {bs : List Branch} (h : ∀ b ∈ bs, PlainExpr b.condition ∧ PlainBlock b.body) :
    s.branchTypes (desugarBranches bs) = s.branchTypes bs := by
  induction bs with
  | nil => rfl
  | cons b bs ih =>
    obtain ⟨⟨-, hb⟩, hbs⟩ := List.forall_mem_cons.1 h
    obtain ⟨condition, body⟩ := b
    simp only [desugarBranches, branchTypes, hb.type, Block.span_desugar, ih hbs]

/-- Branches are checked alike with plain calls in them. -/
theorem checkBranches_desugar {bs : List Branch} (h : ∀ b ∈ bs, PlainExpr b.condition ∧ PlainBlock b.body) :
    s.checkBranches (desugarBranches bs) = s.checkBranches bs := by
  induction bs with
  | nil => rfl
  | cons b bs ih =>
    obtain ⟨⟨hc, hb⟩, hbs⟩ := List.forall_mem_cons.1 h
    obtain ⟨condition, body⟩ := b
    simp only [desugarBranches, checkBranches, hc.run, hb.run, ih hbs]

/-- A body has the same type with plain calls in it. -/
theorem bodyType_desugar {stmts : List Stmt} (h : ∀ st ∈ stmts, PlainStmt st) (s : Scope) :
    s.bodyType (stmts.map Stmt.desugar) = s.bodyType stmts := by
  induction stmts generalizing s with
  | nil => rfl
  | cons st stmts ih =>
    obtain ⟨hst, hstmts⟩ := List.forall_mem_cons.1 h
    cases stmts with
    | nil => exact hst.type s
    | cons st' stmts =>
      have hrest := ih hstmts
      simp only [List.map_cons] at hrest ⊢
      simp only [bodyType_cons_cons, hst.declare, hrest]

/-- Statements are checked alike with plain calls in them. -/
theorem checkStmts_desugar {stmts : List Stmt} (h : ∀ st ∈ stmts, PlainStmt st) (s : Scope) :
    s.checkStmts (stmts.map Stmt.desugar) = s.checkStmts stmts := by
  induction stmts generalizing s with
  | nil => rfl
  | cons st stmts ih =>
    obtain ⟨hst, hstmts⟩ := List.forall_mem_cons.1 h
    simp only [List.map_cons, checkStmts, hst.run, ih hstmts]

/-! ### Records -/

/-- Methods declare the same with plain calls in their bodies. -/
theorem declareMethods_desugar (receiver : Ty) (ms : List Method) (s : Scope) :
    s.declareMethods receiver (desugarMethods ms) = s.declareMethods receiver ms := by
  induction ms generalizing s with
  | nil => rfl
  | cons m ms ih =>
    obtain ⟨n, params, ret, body, span⟩ := m
    simp only [desugarMethods, declareMethods, ih]

/-- Implementations declare the same with plain calls in their methods. -/
theorem declareImplementations_desugar (receiver : Ty) (is : List Implementation) (s : Scope) :
    s.declareImplementations receiver (desugarImplementations is) = s.declareImplementations receiver is := by
  induction is generalizing s with
  | nil => rfl
  | cons i is ih =>
    obtain ⟨protocol, methods, span⟩ := i
    simp only [desugarImplementations, declareImplementations, declareMethods_desugar, ih]

/-- Methods are checked alike with plain calls in their bodies. -/
theorem checkMethods_desugar {receiver : Ty} {fields : List Param} {ms : List Method}
    (h : ∀ m ∈ ms, PlainBlock m.body) (s : Scope) :
    s.checkMethods receiver fields (desugarMethods ms) = s.checkMethods receiver fields ms := by
  induction ms generalizing s with
  | nil => rfl
  | cons m ms ih =>
    obtain ⟨hm, hms⟩ := List.forall_mem_cons.1 h
    obtain ⟨n, params, ret, body, span⟩ := m
    simp only [desugarMethods, checkMethods, hm.run, ih hms]

/-- Implementations are checked alike with plain calls in their methods. -/
theorem checkImplementations_desugar {n : String} {fields : List Param} {is : List Implementation}
    (h : ∀ i ∈ is, ∀ m ∈ i.methods, PlainBlock m.body) (s : Scope) :
    s.checkImplementations n fields (desugarImplementations is) = s.checkImplementations n fields is := by
  induction is generalizing s with
  | nil => rfl
  | cons i is ih =>
    obtain ⟨hi, his⟩ := List.forall_mem_cons.1 h
    obtain ⟨protocol, methods, span⟩ := i
    simp only [desugarImplementations, checkImplementations, checkMethods_desugar hi, ih his]

/-! ### Every construct -/

/-- Each construct is typed and checked as it is with plain calls, when its parts are. -/
theorem plain_cases : TreeCases PlainExpr PlainBlock PlainStmt where
  literal v span := ⟨fun s => by rw [Expr.desugar], fun s => by rw [Expr.desugar]⟩
  name n span := ⟨fun s => by rw [Expr.desugar], fun s => by rw [Expr.desugar]⟩
  binary op l r span hl hr := by
    constructor <;> intro s
    · simp only [Expr.desugar, typeOf]
    · simp only [Expr.desugar, checkExpr, hl.run, hr.run]
  unary op e span h := by
    constructor <;> intro s
    · simp only [Expr.desugar, typeOf]
    · simp only [Expr.desugar, checkExpr, h.run]
  call f args span h := by
    constructor <;> intro s
    · rw [Expr.desugar, desugarExprs_eq, typeOf_call_desugar h]
    · rw [Expr.desugar, desugarExprs_eq, checkExpr_call_desugar h]
  methodCall threading receiver m args span hr h := by
    have hall : ∀ e ∈ threading.arrange receiver args, PlainExpr e := by
      intro e he
      rcases threading.mem_arrange.1 he with rfl | he
      · exact hr
      · exact h e he
    constructor <;> intro s
    · rw [Expr.desugar, desugarExprs_eq, Threading.arrange_desugar, typeOf_call_desugar hall, typeOf_methodCall]
    · rw [Expr.desugar, desugarExprs_eq, Threading.arrange_desugar, checkExpr_call_desugar hall, checkExpr_methodCall]
  member target field span h := by
    constructor <;> intro s
    · simp only [Expr.desugar, typeOf, h.type]
    · simp only [Expr.desugar, checkExpr, h.type, h.run]
  get collection key span hc hk := by
    constructor <;> intro s
    · simp only [Expr.desugar, typeOf, hc.type]
    · simp only [Expr.desugar, checkExpr, hc.run, hk.run]
  vector items span h := by
    constructor <;> intro s
    · simp only [Expr.desugar, typeOf]
    · simp only [Expr.desugar, checkExpr, desugarExprs_eq, checkExprs_desugar h]
  map entries span h := by
    constructor <;> intro s
    · simp only [Expr.desugar, typeOf]
    · simp only [Expr.desugar, checkExpr, checkEntries_desugar h]
  block b h := by
    constructor <;> intro s
    · simp only [Expr.desugar, typeOf, h.type]
    · simp only [Expr.desugar, checkExpr, h.run]
  letIn bindings body span h hb := by
    constructor <;> intro s
    · simp only [Expr.desugar, typeOf, bindAll_desugar h, hb.type]
    · simp only [Expr.desugar, checkExpr, checkBindings_desugar h, hb.run]
  forEach vars iterable body span h hb := by
    constructor <;> intro s
    · simp only [Expr.desugar, typeOf]
    · simp only [Expr.desugar, checkExpr, loopVarType, h.type, h.run, hb.run]
  cond branches otherwise span h ho := by
    cases otherwise with
    | none =>
      constructor <;> intro s
      · simp only [Expr.desugar, desugarBlock?, typeOf]
      · simp only [Expr.desugar, desugarBlock?, checkExpr, checkBranches_desugar h]
    | some b =>
      have hb : PlainBlock b := ho b rfl
      constructor <;> intro s
      · simp only [Expr.desugar, desugarBlock?, typeOf, branchTypes_desugar h, hb.type, Block.span_desugar]
      · simp only [Expr.desugar, desugarBlock?, checkExpr, checkBlock?, checkBranches_desugar h, hb.run]
  lambda params body span h := by
    constructor <;> intro s
    · simp only [Expr.desugar, typeOf, h.type]
    · simp only [Expr.desugar, checkExpr, h.run]
  paren e span h := by
    constructor <;> intro s
    · simp only [Expr.desugar, typeOf, h.type]
    · simp only [Expr.desugar, checkExpr, h.run]
  stmts stmts span h := by
    constructor <;> intro s
    · simp only [Block.desugar, blockType, desugarStmts_eq, bodyType_desugar h]
    · simp only [Block.desugar, checkBlock, desugarStmts_eq, checkStmts_desugar h]
  function n generics params ret body span h := by
    refine ⟨?_, ?_, ?_⟩ <;> intro s
    · simp only [Stmt.desugar, declare]
    · simp only [Stmt.desugar, bodyType, Stmt.span]
    · simp only [Stmt.desugar, checkStmt, h.run]
  record n fields is span h := by
    refine ⟨?_, ?_, ?_⟩ <;> intro s
    · simp only [Stmt.desugar, declare, declareRecord, declareImplementations_desugar]
    · simp only [Stmt.desugar, bodyType, Stmt.span]
    · simp only [Stmt.desugar, checkStmt, checkImplementations_desugar h]
  define n ty value span h := by
    refine ⟨?_, ?_, ?_⟩ <;> intro s
    · cases ty <;> simp only [Stmt.desugar, declare, h.type]
    · simp only [Stmt.desugar, bodyType, Stmt.span]
    · simp only [Stmt.desugar, checkStmt, h.type, h.run]
  expr e h := by
    refine ⟨?_, ?_, ?_⟩ <;> intro s
    · simp only [Stmt.desugar, declare]
    · simp only [Stmt.desugar, bodyType, h.type]
    · simp only [Stmt.desugar, checkStmt, h.run]

end Scope

/-! ## Programs -/

/-- Method calls are sugar, at every depth. A program without them, each written as the call of its method with the receiver as
the first or the last argument, is checked in the same run: the same verdict, with its cause and its place, and the same events.
At every scope an expression has the type that it has without them. -/
theorem Program.method_calls_sugar :
    (∀ p : Program, p.desugar.validate = p.validate ∧ ∀ e ∈ p.desugar.exprs, e.isMethodCall = false) ∧
      ∀ (s : Scope) (e : Expr), s.typeOf e.desugar = s.typeOf e := by
  refine ⟨fun p => ⟨?_, p.no_methodCall_desugar⟩, fun s e => (Scope.plain_cases.all_exprs e).type s⟩
  have hstmts (s : Scope) : s.checkStmts (p.body.map Stmt.desugar) = s.checkStmts p.body :=
    Scope.checkStmts_desugar (fun st _ => Scope.plain_cases.all_stmts st) s
  simp only [validate, desugar, desugarStmts_eq, hstmts, List.length_map]

end Gradual
