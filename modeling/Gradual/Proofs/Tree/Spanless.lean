import Gradual.Tree.Basic

/-!
# Trees without their places

Two trees are the same up to spans when they are equal once every span is put to the front of the text.
-/

namespace Gradual

/-- The span that stands for all others. -/
def Span.nowhere : Span := ⟨0, 0⟩

mutual

/-- An annotation without its spans. -/
def Annotation.spanless : Annotation → Annotation
  | .named n as _ => .named n (spanlessAnnotations as) .nowhere
  | .function ps r _ => .function (spanlessAnnotations ps) r.spanless .nowhere

/-- Annotations without their spans. -/
def spanlessAnnotations : List Annotation → List Annotation
  | [] => []
  | a :: as => a.spanless :: spanlessAnnotations as

end

/-- A parameter or a field without its spans. -/
def Param.spanless (p : Param) : Param := ⟨p.name, p.ty.spanless, .nowhere⟩

/-- A parameter of a lambda without its spans. -/
def LambdaParam.spanless (p : LambdaParam) : LambdaParam := ⟨p.name, p.ty.map Annotation.spanless, .nowhere⟩

/-- A variable of a loop without its span. -/
def LocalName.spanless (v : LocalName) : LocalName := ⟨v.name, .nowhere⟩

mutual

/-- An expression without its spans. -/
def Expr.spanless : Expr → Expr
  | .literal v _ => .literal v .nowhere
  | .name n _ => .name n .nowhere
  | .binary op l r _ => .binary op l.spanless r.spanless .nowhere
  | .unary op e _ => .unary op e.spanless .nowhere
  | .call f args _ => .call f (spanlessExprs args) .nowhere
  | .methodCall threading receiver m args _ => .methodCall threading receiver.spanless m (spanlessExprs args) .nowhere
  | .member target field _ => .member target.spanless field .nowhere
  | .get collection key _ => .get collection.spanless key.spanless .nowhere
  | .vector items _ => .vector (spanlessExprs items) .nowhere
  | .map entries _ => .map (spanlessEntries entries) .nowhere
  | .block b => .block b.spanless
  | .letIn bindings body _ => .letIn (spanlessBindings bindings) body.spanless .nowhere
  | .forEach vars iterable body _ => .forEach (vars.map LocalName.spanless) iterable.spanless body.spanless .nowhere
  | .cond branches otherwise _ => .cond (spanlessBranches branches) (spanlessBlock? otherwise) .nowhere
  | .lambda params body _ => .lambda (params.map LambdaParam.spanless) body.spanless .nowhere
  | .paren e _ => .paren e.spanless .nowhere

/-- Expressions without their spans. -/
def spanlessExprs : List Expr → List Expr
  | [] => []
  | e :: es => e.spanless :: spanlessExprs es

/-- The entries of a map without their spans. -/
def spanlessEntries : List Entry → List Entry
  | [] => []
  | ⟨key, value⟩ :: es => ⟨key.spanless, value.spanless⟩ :: spanlessEntries es

/-- The bindings of a let without their spans. -/
def spanlessBindings : List Binding → List Binding
  | [] => []
  | ⟨n, value, _⟩ :: bs => ⟨n, value.spanless, .nowhere⟩ :: spanlessBindings bs

/-- The branches of a conditional without their spans. -/
def spanlessBranches : List Branch → List Branch
  | [] => []
  | ⟨condition, body⟩ :: bs => ⟨condition.spanless, body.spanless⟩ :: spanlessBranches bs

/-- A block that may be missing without its spans. -/
def spanlessBlock? : Option Block → Option Block
  | none => none
  | some b => some b.spanless

/-- A block without its spans. -/
def Block.spanless : Block → Block
  | ⟨stmts, _⟩ => ⟨spanlessStmts stmts, .nowhere⟩

/-- Statements without their spans. -/
def spanlessStmts : List Stmt → List Stmt
  | [] => []
  | st :: stmts => st.spanless :: spanlessStmts stmts

/-- Methods without their spans. -/
def spanlessMethods : List Method → List Method
  | [] => []
  | ⟨n, params, ret, body, _⟩ :: ms =>
    ⟨n, params.map Param.spanless, ret.map Annotation.spanless, body.spanless, .nowhere⟩ :: spanlessMethods ms

/-- Implementations without their spans. -/
def spanlessImplementations : List Implementation → List Implementation
  | [] => []
  | ⟨protocol, methods, _⟩ :: is => ⟨protocol, spanlessMethods methods, .nowhere⟩ :: spanlessImplementations is

/-- A statement without its spans. -/
def Stmt.spanless : Stmt → Stmt
  | .function n generics params ret body _ =>
    .function n generics (params.map Param.spanless) (ret.map Annotation.spanless) body.spanless .nowhere
  | .record n fields is _ => .record n (fields.map Param.spanless) (spanlessImplementations is) .nowhere
  | .define n ty value _ => .define n (ty.map Annotation.spanless) value.spanless .nowhere
  | .expr e => .expr e.spanless

end

attribute [simp] Expr.spanless

/-- Expressions lose their spans one by one. -/
theorem spanlessExprs_eq_map (es : List Expr) : spanlessExprs es = es.map Expr.spanless := by
  induction es with
  | nil => rfl
  | cons e es ih => rw [spanlessExprs, ih, List.map_cons]

@[simp] theorem Expr.isKeyed_spanless (e : Expr) : e.spanless.isKeyed = e.isKeyed := by
  cases e <;> rfl

end Gradual
