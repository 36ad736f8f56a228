import Gradual.Tree.Basic

/-!
# Induction on programs as trees

Expressions, blocks and statements hold one another, in lists and in entries, bindings, branches, methods and implementations.
What is shown of an expression from what holds of the expressions and blocks in it, and likewise of a block and a statement, holds
of all three. `TreeCases` names the cases, and the other nodes are seen through. `AnnotationCases` does the same for annotations.
-/

namespace Gradual

/-- The arguments that a method receives are the receiver and those of the call. -/
theorem Threading.mem_arrange {α : Type} (threading : Threading) {x receiver : α} {args : List α} :
    x ∈ threading.arrange receiver args ↔ x = receiver ∨ x ∈ args := by
  cases threading <;> simp [Threading.arrange, or_comm]

/-- The cases of an induction on annotations: what holds of the annotations in one holds of it. -/
structure AnnotationCases (P : Annotation → Prop) : Prop where
  name (n : String) (span : Span) : P (.named n [] span)
  applied (n : String) (a : Annotation) (as : List Annotation) (span : Span) (h : ∀ b ∈ a :: as, P b) :
    P (.named n (a :: as) span)
  function (ps : List Annotation) (r : Annotation) (span : Span) (hps : ∀ b ∈ ps, P b) (hr : P r) : P (.function ps r span)

namespace AnnotationCases

variable {P : Annotation → Prop}

mutual

/-- What the cases show holds of every annotation. -/
theorem all (c : AnnotationCases P) : ∀ a, P a
  | .named n [] span => c.name n span
  | .named n (a :: as) span => c.applied n a as span (c.all_of (a :: as))
  | .function ps r span => c.function ps r span (c.all_of ps) (c.all r)

/-- What the cases show holds of annotations in a list. -/
theorem all_of (c : AnnotationCases P) : ∀ as : List Annotation, ∀ a ∈ as, P a
  | [] => List.forall_mem_nil _
  | a :: as => List.forall_mem_cons.2 ⟨c.all a, c.all_of as⟩

end

end AnnotationCases

/-- The cases of an induction on trees: what holds of the expressions, blocks and statements in a node holds of the node. -/
structure TreeCases (P : Expr → Prop) (B : Block → Prop) (S : Stmt → Prop) : Prop where
  literal (v : Literal) (span : Span) : P (.literal v span)
  name (n : String) (span : Span) : P (.name n span)
  binary (op : BinaryOp) (l r : Expr) (span : Span) (hl : P l) (hr : P r) : P (.binary op l r span)
  unary (op : UnaryOp) (e : Expr) (span : Span) (h : P e) : P (.unary op e span)
  call (f : String) (args : List Expr) (span : Span) (h : ∀ e ∈ args, P e) : P (.call f args span)
  methodCall (threading : Threading) (receiver : Expr) (m : String) (args : List Expr) (span : Span) (hr : P receiver)
    (h : ∀ e ∈ args, P e) : P (.methodCall threading receiver m args span)
  member (target : Expr) (field : String) (span : Span) (h : P target) : P (.member target field span)
  get (collection key : Expr) (span : Span) (hc : P collection) (hk : P key) : P (.get collection key span)
  vector (items : List Expr) (span : Span) (h : ∀ e ∈ items, P e) : P (.vector items span)
  map (entries : List Entry) (span : Span) (h : ∀ e ∈ entries, P e.key ∧ P e.value) : P (.map entries span)
  block (b : Block) (h : B b) : P (.block b)
  letIn (bindings : List Binding) (body : Block) (span : Span) (h : ∀ b ∈ bindings, P b.value) (hb : B body) :
    P (.letIn bindings body span)
  forEach (vars : List LocalName) (iterable : Expr) (body : Block) (span : Span) (h : P iterable) (hb : B body) :
    P (.forEach vars iterable body span)
  cond (branches : List Branch) (otherwise : Option Block) (span : Span) (h : ∀ b ∈ branches, P b.condition ∧ B b.body)
    (ho : ∀ b ∈ otherwise, B b) : P (.cond branches otherwise span)
  lambda (params : List LambdaParam) (body : Expr) (span : Span) (h : P body) : P (.lambda params body span)
  paren (e : Expr) (span : Span) (h : P e) : P (.paren e span)
  stmts (stmts : List Stmt) (span : Span) (h : ∀ s ∈ stmts, S s) : B ⟨stmts, span⟩
  function (n : String) (generics : List String) (params : List Param) (ret : Option Annotation) (body : Block) (span : Span)
    (h : B body) : S (.function n generics params ret body span)
  record (n : String) (fields : List Param) (implementations : List Implementation) (span : Span)
    (h : ∀ i ∈ implementations, ∀ m ∈ i.methods, B m.body) : S (.record n fields implementations span)
  define (n : String) (ty : Option Annotation) (value : Expr) (span : Span) (h : P value) : S (.define n ty value span)
  expr (e : Expr) (h : P e) : S (.expr e)

namespace TreeCases

variable {P : Expr → Prop} {B : Block → Prop} {S : Stmt → Prop}

mutual

/-- What the cases show holds of every expression. -/
theorem all_exprs (c : TreeCases P B S) : ∀ e, P e
  | .literal v span => c.literal v span
  | .name n span => c.name n span
  | .binary op l r span => c.binary op l r span (c.all_exprs l) (c.all_exprs r)
  | .unary op e span => c.unary op e span (c.all_exprs e)
  | .call f args span => c.call f args span (c.all_args args)
  | .methodCall threading receiver m args span =>
    c.methodCall threading receiver m args span (c.all_exprs receiver) (c.all_args args)
  | .member target field span => c.member target field span (c.all_exprs target)
  | .get collection key span => c.get collection key span (c.all_exprs collection) (c.all_exprs key)
  | .vector items span => c.vector items span (c.all_args items)
  | .map entries span => c.map entries span (c.all_entries entries)
  | .block b => c.block b (c.all_blocks b)
  | .letIn bindings body span => c.letIn bindings body span (c.all_bindings bindings) (c.all_blocks body)
  | .forEach vars iterable body span => c.forEach vars iterable body span (c.all_exprs iterable) (c.all_blocks body)
  | .cond branches none span => c.cond branches none span (c.all_branches branches) (by simp)
  | .cond branches (some b) span => c.cond branches (some b) span (c.all_branches branches) (by simpa using c.all_blocks b)
  | .lambda params body span => c.lambda params body span (c.all_exprs body)
  | .paren e span => c.paren e span (c.all_exprs e)

/-- What the cases show holds of expressions in a list. -/
theorem all_args (c : TreeCases P B S) : ∀ es : List Expr, ∀ e ∈ es, P e
  | [] => List.forall_mem_nil _
  | e :: es => List.forall_mem_cons.2 ⟨c.all_exprs e, c.all_args es⟩

/-- What the cases show holds of the keys and values of a map. -/
theorem all_entries (c : TreeCases P B S) : ∀ es : List Entry, ∀ e ∈ es, P e.key ∧ P e.value
  | [] => List.forall_mem_nil _
  | ⟨key, value⟩ :: es => List.forall_mem_cons.2 ⟨⟨c.all_exprs key, c.all_exprs value⟩, c.all_entries es⟩

/-- What the cases show holds of the values of bindings. -/
theorem all_bindings (c : TreeCases P B S) : ∀ bs : List Binding, ∀ b ∈ bs, P b.value
  | [] => List.forall_mem_nil _
  | ⟨_, value, _⟩ :: bs => List.forall_mem_cons.2 ⟨c.all_exprs value, c.all_bindings bs⟩

/-- What the cases show holds of the conditions and bodies of branches. -/
theorem all_branches (c : TreeCases P B S) : ∀ bs : List Branch, ∀ b ∈ bs, P b.condition ∧ B b.body
  | [] => List.forall_mem_nil _
  | ⟨condition, body⟩ :: bs => List.forall_mem_cons.2 ⟨⟨c.all_exprs condition, c.all_blocks body⟩, c.all_branches bs⟩

/-- What the cases show holds of every block. -/
theorem all_blocks (c : TreeCases P B S) : ∀ b, B b
  | ⟨stmts, span⟩ => c.stmts stmts span (c.all_bodies stmts)

/-- What the cases show holds of statements in a list. -/
theorem all_bodies (c : TreeCases P B S) : ∀ stmts : List Stmt, ∀ s ∈ stmts, S s
  | [] => List.forall_mem_nil _
  | s :: stmts => List.forall_mem_cons.2 ⟨c.all_stmts s, c.all_bodies stmts⟩

/-- What the cases show holds of the bodies of methods. -/
theorem all_methods (c : TreeCases P B S) : ∀ ms : List Method, ∀ m ∈ ms, B m.body
  | [] => List.forall_mem_nil _
  | ⟨_, _, _, body, _⟩ :: ms => List.forall_mem_cons.2 ⟨c.all_blocks body, c.all_methods ms⟩

/-- What the cases show holds of the bodies of methods in implementations. -/
theorem all_implementations (c : TreeCases P B S) : ∀ is : List Implementation, ∀ i ∈ is, ∀ m ∈ i.methods, B m.body
  | [] => List.forall_mem_nil _
  | ⟨_, methods, _⟩ :: is => List.forall_mem_cons.2 ⟨c.all_methods methods, c.all_implementations is⟩

/-- What the cases show holds of every statement. -/
theorem all_stmts (c : TreeCases P B S) : ∀ s, S s
  | .function n generics params ret body span => c.function n generics params ret body span (c.all_blocks body)
  | .record n fields implementations span => c.record n fields implementations span (c.all_implementations implementations)
  | .define n ty value span => c.define n ty value span (c.all_exprs value)
  | .expr e => c.expr e (c.all_exprs e)

end

end TreeCases

end Gradual
