import Gradual.Number.Double
import Gradual.Tree.Annotation

/-!
# Programs as trees

Every node carries the span of the text it was read from. A statement that is an expression has the span of the expression, and
a block used as an expression the span of the block.
-/

namespace Gradual

/-- The operators between two operands. -/
inductive BinaryOp where
  | add | sub | mul | div | rem
  | eq | ne | lt | le | gt | ge
  | and | or
  deriving DecidableEq

/-- How tightly an operator binds; a higher number binds tighter. -/
def BinaryOp.precedence : BinaryOp → Nat
  | .or => 1
  | .and => 2
  | .eq | .ne => 3
  | .lt | .le | .gt | .ge => 4
  | .add | .sub => 5
  | .mul | .div | .rem => 6

/-- The operators before one operand. -/
inductive UnaryOp where
  | neg | not
  deriving DecidableEq

/-- Where a method call passes its receiver: `p.m(a)` as the first argument, `p->m(a)` as the last. -/
inductive Threading where
  | first | last
  deriving DecidableEq

/-- The arguments of a method call in the order the method receives them. -/
def Threading.arrange {α : Type} : Threading → α → List α → List α
  | .first, receiver, args => receiver :: args
  | .last, receiver, args => args ++ [receiver]

/-- The values a program can write down. -/
inductive Literal where
  | number (value : Double)
  | string (text : String)
  | symbol (name : String)
  | bool (value : Bool)
  | nil
  deriving DecidableEq

/-- A parameter of a function or a method, or a field of a record. -/
structure Param where
  name : String
  ty : Annotation
  span : Span

/-- A parameter of a lambda, whose annotation may be missing. -/
structure LambdaParam where
  name : String
  ty : Option Annotation
  span : Span

/-- A variable of a loop. -/
structure LocalName where
  name : String
  span : Span

mutual

/-- An expression. -/
inductive Expr where
  | literal (value : Literal) (span : Span)
  | name (name : String) (span : Span)
  | binary (op : BinaryOp) (left right : Expr) (span : Span)
  | unary (op : UnaryOp) (operand : Expr) (span : Span)
  | call (function : String) (args : List Expr) (span : Span)
  | methodCall (threading : Threading) (receiver : Expr) (method : String) (args : List Expr) (span : Span)
  | member (target : Expr) (field : String) (span : Span)
  | get (collection key : Expr) (span : Span)
  | vector (items : List Expr) (span : Span)
  | map (entries : List Entry) (span : Span)
  | block (body : Block)
  | letIn (bindings : List Binding) (body : Block) (span : Span)
  | forEach (vars : List LocalName) (iterable : Expr) (body : Block) (span : Span)
  | cond (branches : List Branch) (otherwise : Option Block) (span : Span)
  | lambda (params : List LambdaParam) (body : Expr) (span : Span)
  | paren (inner : Expr) (span : Span)

/-- A key and its value in a map. -/
structure Entry where
  key : Expr
  value : Expr

/-- A name and its value in a let. -/
structure Binding where
  name : String
  value : Expr
  span : Span

/-- A condition and the block it guards. -/
structure Branch where
  condition : Expr
  body : Block

/-- Statements in braces; the value of a block is that of its last expression. -/
structure Block where
  stmts : List Stmt
  span : Span

/-- A method; its receiver is implicit. -/
structure Method where
  name : String
  params : List Param
  ret : Option Annotation
  body : Block
  span : Span

/-- The methods by which a record implements a protocol. -/
structure Implementation where
  protocol : String
  methods : List Method
  span : Span

/-- A statement. -/
inductive Stmt where
  | function (name : String) (generics : List String) (params : List Param) (ret : Option Annotation) (body : Block)
      (span : Span)
  | record (name : String) (fields : List Param) (implementations : List Implementation) (span : Span)
  | define (name : String) (ty : Option Annotation) (value : Expr) (span : Span)
  | expr (value : Expr)

end

/-- Where an expression stands. -/
def Expr.span : Expr → Span
  | .literal _ s | .name _ s | .binary _ _ _ s | .unary _ _ s | .call _ _ s | .methodCall _ _ _ _ s | .member _ _ s
  | .get _ _ s | .vector _ s | .map _ s | .letIn _ _ s | .forEach _ _ _ s | .cond _ _ s | .lambda _ _ s | .paren _ s => s
  | .block b => b.span

/-- Where a statement stands. -/
def Stmt.span : Stmt → Span
  | .function _ _ _ _ _ s | .record _ _ _ s | .define _ _ _ s => s
  | .expr e => e.span

/-- Whether a statement defines a name. -/
def Stmt.isDefinition : Stmt → Bool
  | .expr _ => false
  | _ => true

/-- Whether a key in brackets may follow an expression: after a name, a member or another key. -/
def Expr.isKeyed : Expr → Bool
  | .name .. | .member .. | .get .. => true
  | _ => false

/-- The import of a class of the host, by its path. -/
structure Import where
  path : List String
  span : Span

/-- The name that an import binds: the last of its path. -/
def Import.binding? (i : Import) : Option String := i.path.getLast?

/-- A program: its imports, and its statements in order. -/
structure Program where
  imports : List Import
  body : List Stmt
  span : Span

end Gradual
