import Gradual.Proofs.Tree.Induction

/-!
# The grouping of operators

`Program.exprs` lists every expression in a program, at any depth. An expression is grouped when its operands bind as tightly as
their places ask (`Expr.IsGrouped`): operators of one precedence group to the left, a leading operator takes no operator between
operands, and what a member, a key or a method is asked of is no operation at all.
-/

namespace Gradual

/-! ## All expressions -/

namespace Expr

mutual

/-- An expression and all expressions in it. -/
def exprs : Expr → List Expr
  | .literal v span => [.literal v span]
  | .name n span => [.name n span]
  | .binary op l r span => .binary op l r span :: (exprs l ++ exprs r)
  | .unary op e span => .unary op e span :: exprs e
  | .call f args span => .call f args span :: exprsOf args
  | .methodCall threading receiver m args span => .methodCall threading receiver m args span :: (exprs receiver ++ exprsOf args)
  | .member target field span => .member target field span :: exprs target
  | .get collection key span => .get collection key span :: (exprs collection ++ exprs key)
  | .vector items span => .vector items span :: exprsOf items
  | .map entries span => .map entries span :: entryExprs entries
  | .block b => .block b :: blockExprs b
  | .letIn bindings body span => .letIn bindings body span :: (bindingExprs bindings ++ blockExprs body)
  | .forEach vars iterable body span => .forEach vars iterable body span :: (exprs iterable ++ blockExprs body)
  | .cond branches otherwise span => .cond branches otherwise span :: (branchExprs branches ++ otherwiseExprs otherwise)
  | .lambda params body span => .lambda params body span :: exprs body
  | .paren e span => .paren e span :: exprs e

/-- All expressions in some. -/
def exprsOf : List Expr → List Expr
  | [] => []
  | e :: es => exprs e ++ exprsOf es

/-- All expressions in the entries of a map. -/
def entryExprs : List Entry → List Expr
  | [] => []
  | ⟨key, value⟩ :: es => exprs key ++ (exprs value ++ entryExprs es)

/-- All expressions in the bindings of a let. -/
def bindingExprs : List Binding → List Expr
  | [] => []
  | ⟨_, value, _⟩ :: bs => exprs value ++ bindingExprs bs

/-- All expressions in the branches of a conditional. -/
def branchExprs : List Branch → List Expr
  | [] => []
  | ⟨condition, body⟩ :: bs => exprs condition ++ (blockExprs body ++ branchExprs bs)

/-- All expressions in a block that may be missing. -/
def otherwiseExprs : Option Block → List Expr
  | none => []
  | some b => blockExprs b

/-- All expressions in a block. -/
def blockExprs : Block → List Expr
  | ⟨stmts, _⟩ => stmtsExprs stmts

/-- All expressions in statements. -/
def stmtsExprs : List Stmt → List Expr
  | [] => []
  | s :: ss => stmtExprs s ++ stmtsExprs ss

/-- All expressions in the bodies of methods. -/
def methodExprs : List Method → List Expr
  | [] => []
  | ⟨_, _, _, body, _⟩ :: ms => blockExprs body ++ methodExprs ms

/-- All expressions in implementations. -/
def implementationExprs : List Implementation → List Expr
  | [] => []
  | ⟨_, methods, _⟩ :: is => methodExprs methods ++ implementationExprs is

/-- All expressions in a statement. -/
def stmtExprs : Stmt → List Expr
  | .function _ _ _ _ body _ => blockExprs body
  | .record _ _ implementations _ => implementationExprs implementations
  | .define _ _ value _ => exprs value
  | .expr e => exprs e

end

-- The equations of the walk are made here, once, as the proofs about the grammar all ask for them.
attribute [local simp] exprs exprsOf entryExprs bindingExprs branchExprs otherwiseExprs blockExprs stmtsExprs methodExprs
  implementationExprs stmtExprs

@[simp] theorem exprsOf_eq (es : List Expr) : exprsOf es = es.flatMap exprs := by
  induction es with
  | nil => rfl
  | cons e es ih => rw [exprsOf, ih, List.flatMap_cons]

@[simp] theorem entryExprs_eq (es : List Entry) : entryExprs es = es.flatMap fun e => exprs e.key ++ exprs e.value := by
  induction es with
  | nil => rfl
  | cons e es ih =>
    obtain ⟨key, value⟩ := e
    simp [entryExprs, ih]

@[simp] theorem bindingExprs_eq (bs : List Binding) : bindingExprs bs = bs.flatMap fun b => exprs b.value := by
  induction bs with
  | nil => rfl
  | cons b bs ih =>
    obtain ⟨n, value, span⟩ := b
    simp [bindingExprs, ih]

@[simp] theorem branchExprs_eq (bs : List Branch) :
    branchExprs bs = bs.flatMap fun b => exprs b.condition ++ blockExprs b.body := by
  induction bs with
  | nil => rfl
  | cons b bs ih =>
    obtain ⟨condition, body⟩ := b
    simp [branchExprs, ih]

@[simp] theorem stmtsExprs_eq (ss : List Stmt) : stmtsExprs ss = ss.flatMap stmtExprs := by
  induction ss with
  | nil => rfl
  | cons s ss ih => rw [stmtsExprs, ih, List.flatMap_cons]

@[simp] theorem methodExprs_eq (ms : List Method) : methodExprs ms = ms.flatMap fun m => blockExprs m.body := by
  induction ms with
  | nil => rfl
  | cons m ms ih =>
    obtain ⟨n, params, ret, body, span⟩ := m
    simp [methodExprs, ih]

@[simp] theorem implementationExprs_eq (is : List Implementation) :
    implementationExprs is = is.flatMap fun i => methodExprs i.methods := by
  induction is with
  | nil => rfl
  | cons i is ih =>
    obtain ⟨protocol, methods, span⟩ := i
    simp [implementationExprs, ih]

end Expr

/-- All expressions in a program. -/
def Program.exprs (p : Program) : List Expr := Expr.stmtsExprs p.body

/-! ## Grouping -/

namespace Expr

/-- The operator of an expression that is two operands with an operator between them. -/
def operator? : Expr → Option BinaryOp
  | .binary op _ _ _ => some op
  | _ => none

/-- Whether an expression is an operator with its operands. -/
def isOperation : Expr → Bool
  | .binary .. | .unary .. => true
  | _ => false

/-- An expression whose operands bind as tightly as their places ask. -/
def IsGrouped : Expr → Prop
  | .binary op l r _ =>
    (∀ o ∈ l.operator?, op.precedence ≤ o.precedence) ∧ ∀ o ∈ r.operator?, op.precedence < o.precedence
  | .unary _ e _ => e.operator? = none
  | .methodCall _ receiver _ _ _ => receiver.isOperation = false
  | .member target _ _ => target.isOperation = false
  | .get collection _ _ => collection.isOperation = false
  | _ => True

/-- Expressions that are all grouped. -/
def AllGrouped (es : List Expr) : Prop := ∀ x ∈ es, x.IsGrouped

/-- An expression in which every expression is grouped. -/
def Grouped (e : Expr) : Prop := AllGrouped e.exprs

@[simp] theorem allGrouped_nil : AllGrouped [] := by simp [AllGrouped]

@[simp] theorem allGrouped_cons {e : Expr} {es : List Expr} : AllGrouped (e :: es) ↔ e.IsGrouped ∧ AllGrouped es :=
  List.forall_mem_cons

@[simp] theorem allGrouped_append {es fs : List Expr} : AllGrouped (es ++ fs) ↔ AllGrouped es ∧ AllGrouped fs :=
  List.forall_mem_append

@[simp] theorem allGrouped_flatMap {α : Type} {as : List α} {f : α → List Expr} :
    AllGrouped (as.flatMap f) ↔ ∀ a ∈ as, AllGrouped (f a) :=
  List.forall_mem_flatMap

/-- What is no operation has no operator between operands at its top. -/
theorem operator?_of_not_isOperation {e : Expr} (h : e.isOperation = false) : e.operator? = none := by
  cases e <;> first | rfl | cases h

end Expr

end Gradual
