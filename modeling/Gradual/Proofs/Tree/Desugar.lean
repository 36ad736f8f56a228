import Gradual.Proofs.Tree.Grouping

/-!
# Method calls as plain calls

`p.m(a)` is the call `m(p, a)` and `p->m(a)` the call `m(a, p)`. `Expr.desugar` writes every method call so, at any depth, also in
receivers, arguments and the bodies of functions, methods and lambdas, and leaves every span as it is. No method call is left
(`Program.no_methodCall_desugar`).
-/

namespace Gradual

mutual

/-- An expression with plain calls for its method calls. -/
def Expr.desugar : Expr → Expr
  | .literal v span => .literal v span
  | .name n span => .name n span
  | .binary op l r span => .binary op l.desugar r.desugar span
  | .unary op e span => .unary op e.desugar span
  | .call f args span => .call f (desugarExprs args) span
  | .methodCall threading receiver m args span => .call m (threading.arrange receiver.desugar (desugarExprs args)) span
  | .member target field span => .member target.desugar field span
  | .get collection key span => .get collection.desugar key.desugar span
  | .vector items span => .vector (desugarExprs items) span
  | .map entries span => .map (desugarEntries entries) span
  | .block b => .block b.desugar
  | .letIn bindings body span => .letIn (desugarBindings bindings) body.desugar span
  | .forEach vars iterable body span => .forEach vars iterable.desugar body.desugar span
  | .cond branches otherwise span => .cond (desugarBranches branches) (desugarBlock? otherwise) span
  | .lambda params body span => .lambda params body.desugar span
  | .paren e span => .paren e.desugar span

/-- Expressions with plain calls. -/
def desugarExprs : List Expr → List Expr
  | [] => []
  | e :: es => e.desugar :: desugarExprs es

/-- The entries of a map with plain calls. -/
def desugarEntries : List Entry → List Entry
  | [] => []
  | ⟨key, value⟩ :: es => ⟨key.desugar, value.desugar⟩ :: desugarEntries es

/-- The bindings of a let with plain calls. -/
def desugarBindings : List Binding → List Binding
  | [] => []
  | ⟨n, value, span⟩ :: bs => ⟨n, value.desugar, span⟩ :: desugarBindings bs

/-- The branches of a conditional with plain calls. -/
def desugarBranches : List Branch → List Branch
  | [] => []
  | ⟨condition, body⟩ :: bs => ⟨condition.desugar, body.desugar⟩ :: desugarBranches bs

/-- A block that may be missing with plain calls. -/
def desugarBlock? : Option Block → Option Block
  | none => none
  | some b => some b.desugar

/-- A block with plain calls. -/
def Block.desugar : Block → Block
  | ⟨stmts, span⟩ => ⟨desugarStmts stmts, span⟩

/-- Statements with plain calls. -/
def desugarStmts : List Stmt → List Stmt
  | [] => []
  | st :: stmts => st.desugar :: desugarStmts stmts

/-- Methods with plain calls in their bodies. -/
def desugarMethods : List Method → List Method
  | [] => []
  | ⟨n, params, ret, body, span⟩ :: ms => ⟨n, params, ret, body.desugar, span⟩ :: desugarMethods ms

/-- Implementations with plain calls in the bodies of their methods. -/
def desugarImplementations : List Implementation → List Implementation
  | [] => []
  | ⟨protocol, methods, span⟩ :: is => ⟨protocol, desugarMethods methods, span⟩ :: desugarImplementations is

/-- A statement with plain calls. -/
def Stmt.desugar : Stmt → Stmt
  | .function n generics params ret body span => .function n generics params ret body.desugar span
  | .record n fields is span => .record n fields (desugarImplementations is) span
  | .define n ty value span => .define n ty value.desugar span
  | .expr e => .expr e.desugar

end

/-- A program with plain calls for its method calls. -/
def Program.desugar (p : Program) : Program := { p with body := desugarStmts p.body }

-- The equations of the walk are made here, once: the proofs about it all ask for them.
attribute [simp] Expr.desugar desugarBlock? Block.desugar Stmt.desugar

@[simp] theorem desugarExprs_eq (es : List Expr) : desugarExprs es = es.map Expr.desugar := by
  induction es with
  | nil => rfl
  | cons e es ih => rw [desugarExprs, ih, List.map_cons]

@[simp] theorem desugarEntries_eq (es : List Entry) : desugarEntries es = es.map fun e => ⟨e.key.desugar, e.value.desugar⟩ := by
  induction es with
  | nil => rfl
  | cons e es ih =>
    cases e
    rw [desugarEntries, ih, List.map_cons]

@[simp] theorem desugarBindings_eq (bs : List Binding) :
    desugarBindings bs = bs.map fun b => ⟨b.name, b.value.desugar, b.span⟩ := by
  induction bs with
  | nil => rfl
  | cons b bs ih =>
    cases b
    rw [desugarBindings, ih, List.map_cons]

@[simp] theorem desugarBranches_eq (bs : List Branch) :
    desugarBranches bs = bs.map fun b => ⟨b.condition.desugar, b.body.desugar⟩ := by
  induction bs with
  | nil => rfl
  | cons b bs ih =>
    cases b
    rw [desugarBranches, ih, List.map_cons]

@[simp] theorem desugarStmts_eq (stmts : List Stmt) : desugarStmts stmts = stmts.map Stmt.desugar := by
  induction stmts with
  | nil => rfl
  | cons st stmts ih => rw [desugarStmts, ih, List.map_cons]

@[simp] theorem desugarMethods_eq (ms : List Method) :
    desugarMethods ms = ms.map fun m => ⟨m.name, m.params, m.ret, m.body.desugar, m.span⟩ := by
  induction ms with
  | nil => rfl
  | cons m ms ih =>
    cases m
    rw [desugarMethods, ih, List.map_cons]

@[simp] theorem desugarImplementations_eq (is : List Implementation) :
    desugarImplementations is = is.map fun i => ⟨i.protocol, desugarMethods i.methods, i.span⟩ := by
  induction is with
  | nil => rfl
  | cons i is ih =>
    cases i
    rw [desugarImplementations, ih, List.map_cons]

@[simp] theorem Block.span_desugar (b : Block) : b.desugar.span = b.span := by
  cases b
  rw [Block.desugar]

/-- The arguments of a method call are arranged before or after they are rewritten. -/
theorem Threading.arrange_desugar (threading : Threading) (receiver : Expr) (args : List Expr) :
    threading.arrange receiver.desugar (args.map Expr.desugar) = (threading.arrange receiver args).map Expr.desugar := by
  cases threading <;> simp [Threading.arrange]

/-! ## No method call is left -/

/-- Whether an expression is a method call. -/
def Expr.isMethodCall : Expr → Bool
  | .methodCall .. => true
  | _ => false

/-- None of some expressions is a method call. -/
def NoMethodCall (es : List Expr) : Prop := ∀ x ∈ es, x.isMethodCall = false

@[simp] theorem noMethodCall_nil : NoMethodCall [] := by simp [NoMethodCall]

@[simp] theorem noMethodCall_cons {e : Expr} {es : List Expr} :
    NoMethodCall (e :: es) ↔ e.isMethodCall = false ∧ NoMethodCall es := by
  simp [NoMethodCall]

@[simp] theorem noMethodCall_append {es fs : List Expr} : NoMethodCall (es ++ fs) ↔ NoMethodCall es ∧ NoMethodCall fs := by
  simp [NoMethodCall, or_imp, forall_and]

@[simp] theorem noMethodCall_flatMap {α : Type} {as : List α} {f : α → List Expr} :
    NoMethodCall (as.flatMap f) ↔ ∀ a ∈ as, NoMethodCall (f a) := by
  simp only [NoMethodCall, List.mem_flatMap]
  constructor
  · intro h a ha x hx
    exact h x ⟨a, ha, hx⟩
  · rintro h x ⟨a, ha, hx⟩
    exact h a ha x hx

/-- No construct is a method call once its method calls are written as plain ones. -/
theorem noMethodCall_cases : TreeCases (fun e => NoMethodCall e.desugar.exprs) (fun b => NoMethodCall (Expr.blockExprs b.desugar))
    (fun st => NoMethodCall (Expr.stmtExprs st.desugar)) where
  literal v span := by simp [Expr.exprs, Expr.isMethodCall]
  name n span := by simp [Expr.exprs, Expr.isMethodCall]
  binary op l r span hl hr := by simp [Expr.exprs, Expr.isMethodCall, hl, hr]
  unary op e span h := by simp [Expr.exprs, Expr.isMethodCall, h]
  call f args span h := by simpa [Expr.exprs, Expr.isMethodCall] using h
  methodCall threading receiver m args span hr h := by
    simp only [Expr.desugar, desugarExprs_eq, Threading.arrange_desugar, Expr.exprs, Expr.exprsOf_eq, noMethodCall_cons,
      noMethodCall_flatMap, List.forall_mem_map]
    refine ⟨rfl, fun e he => ?_⟩
    rcases threading.mem_arrange.1 he with rfl | he
    · exact hr
    · exact h e he
  member target field span h := by simp [Expr.exprs, Expr.isMethodCall, h]
  get collection key span hc hk := by simp [Expr.exprs, Expr.isMethodCall, hc, hk]
  vector items span h := by simpa [Expr.exprs, Expr.isMethodCall] using h
  map entries span h := by simpa [Expr.exprs, Expr.isMethodCall] using h
  block b h := by simpa [Expr.exprs, Expr.isMethodCall] using h
  letIn bindings body span h hb := by
    simp only [Expr.desugar, desugarBindings_eq, Expr.exprs, Expr.bindingExprs_eq, noMethodCall_cons, noMethodCall_append,
      noMethodCall_flatMap, List.forall_mem_map]
    exact ⟨rfl, h, hb⟩
  forEach vars iterable body span h hb := by
    simp only [Expr.desugar, Expr.exprs, noMethodCall_cons, noMethodCall_append]
    exact ⟨rfl, h, hb⟩
  cond branches otherwise span h ho := by
    simp only [Expr.desugar, desugarBranches_eq, Expr.exprs, Expr.branchExprs_eq, noMethodCall_cons, noMethodCall_append,
      noMethodCall_flatMap, List.forall_mem_map]
    refine ⟨rfl, h, ?_⟩
    cases otherwise with
    | none => simp [Expr.otherwiseExprs]
    | some b => exact ho b rfl
  lambda params body span h := by simp [Expr.exprs, Expr.isMethodCall, h]
  paren e span h := by simp [Expr.exprs, Expr.isMethodCall, h]
  stmts stmts span h := by simpa [Expr.blockExprs] using h
  function n generics params ret body span h := h
  record n fields implementations span h := by simpa [Expr.stmtExprs] using h
  define n ty value span h := h
  expr e h := h

/-- No expression in a program is a method call once its method calls are written as plain ones. -/
theorem Program.no_methodCall_desugar (p : Program) : NoMethodCall p.desugar.exprs := by
  simpa [Program.exprs, Program.desugar] using fun st _ => noMethodCall_cases.all_stmts st

end Gradual
