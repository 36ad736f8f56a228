import Gradual.Proofs.Check.Validity

/-!
# Taking off parentheses

`Scope.Unwraps` says that an expression is another with some pairs of parentheses taken off, at any depth. It leaves one pair
alone: where a generic declaration expects a function, a generic function that is named as the argument passes its signature, and
the same name in parentheses is an argument of unknown type (`Scope.MayBecome`).

Each part of a tree stands at a scope of its own, so the relation goes down the tree with the scopes. Where the bindings before a
part fail, the check has stopped, and the part is taken to stand at the scope before them.
-/

namespace Gradual

namespace Scope

/-! ## Where the parts of a tree stand -/

/-- The scope that bindings leave, or the scope before them where they fail. -/
def after (s : Scope) (r : Outcome Scope) : Scope :=
  match r with
  | .ok t => t
  | .error _ => s

@[simp] theorem after_ok (s t : Scope) : s.after (.ok t) = t := rfl

/-- Where the body of a lambda stands: its check binds each parameter once, its typing needs every annotation. -/
def lambdaBody (s : Scope) (params : List LambdaParam) : Scope :=
  match s.child.declareLambdaParams params, s.lambdaScope s.child params with
  | .ok inner, _ => inner
  | .error _, .ok (some (_, inner)) => inner
  | .error _, _ => s

/-- Where the body of a loop stands. -/
def loopBody (s : Scope) (vars : List LocalName) (iterable : Expr) : Scope :=
  s.after do
    let t ← s.loopVarType vars iterable
    s.child.declareLoopVars t vars

/-- Where the body of a function stands. -/
def functionBody (s : Scope) (name : String) (generics : List String) (params : List Param) (ret : Option Annotation) : Scope :=
  s.after do
    let d ← (s.withGenerics name generics).functionDeclaration name generics params ret
    ((s.addFunction name d).withGenerics name generics).child.declareParams params

/-- Where the implementations of a record stand. -/
def recordBody (s : Scope) (name : String) (fields : List Param) : Scope :=
  s.after do
    let layout ← (s.addType name (.simple name)).recordLayout name fields
    pure (((s.addType name (.simple name)).addFunction name (some layout.constructor)).addRecord layout)

/-- Where the methods after a method stand. -/
def afterMethod (s : Scope) (receiver : Ty) (name : String) (params : List Param) (ret : Option Annotation) : Scope :=
  s.after do
    let d ← s.methodDeclaration receiver name params ret
    pure (s.addFunction name d)

/-- Where the body of a method stands. -/
def methodBody (s : Scope) (receiver : Ty) (fields : List Param) (name : String) (params : List Param)
    (ret : Option Annotation) : Scope :=
  s.after do
    let around ← (s.afterMethod receiver name params ret).child.declareParams fields
    (around.child.addVariable "self" (some receiver)).declareParams params

/-- Where the parameters of a lambda are declared, its body stands in the scope that they leave. -/
theorem lambdaBody_of_declareLambdaParams {s r : Scope} {params : List LambdaParam}
    (h : s.child.declareLambdaParams params = .ok r) : s.lambdaBody params = r := by
  rw [lambdaBody, h]

/-- Where a lambda has a type, its body stands in the scope that the type is found in. -/
theorem lambdaBody_of_lambdaScope {s r : Scope} {params : List LambdaParam} {ts : List Ty}
    (h : s.lambdaScope s.child params = .ok (some (ts, r))) : s.lambdaBody params = r := by
  cases hd : s.child.declareLambdaParams params with
  | error e => rw [lambdaBody, hd, h]
  | ok r' =>
    rw [lambdaBody_of_declareLambdaParams hd]
    rcases lambdaScope_of_declareLambdaParams (fun n => (s.type?_child n).symm) hd with hl | ⟨us, hl⟩
    · rw [h] at hl
      cases hl
    · rw [h] at hl
      cases hl
      rfl

/-! ## Taking off parentheses -/

/-- An argument may come to be another unless that makes it the bare name of a generic function whose signature is passed. -/
def MayBecome (s : Scope) (callee : Option Callee) (index : Nat) (e e' : Expr) : Prop :=
  ∀ d, callee = some (.typed d) → s.passedSignature? d index e' ≠ none → e' = e

mutual

/-- At a scope, the second expression is the first with some parentheses taken off. -/
inductive Unwraps : Scope → Expr → Expr → Prop
  | literal (s : Scope) (v : Literal) (span : Span) : Unwraps s (.literal v span) (.literal v span)
  | name (s : Scope) (n : String) (span : Span) : Unwraps s (.name n span) (.name n span)
  | binary {s : Scope} {op : BinaryOp} {l l' r r' : Expr} {span : Span} (hl : Unwraps s l l') (hr : Unwraps s r r') :
      Unwraps s (.binary op l r span) (.binary op l' r' span)
  | unary {s : Scope} {op : UnaryOp} {e e' : Expr} {span : Span} (h : Unwraps s e e') :
      Unwraps s (.unary op e span) (.unary op e' span)
  | call {s : Scope} {f : String} {args args' : List Expr} {span : Span} (h : UnwrapsArgs s (s.callee? f) 0 args args') :
      Unwraps s (.call f args span) (.call f args' span)
  | methodCall {s : Scope} {threading : Threading} {receiver receiver' : Expr} {m : String} {args args' : List Expr} {span : Span}
      (h : UnwrapsArgs s (s.callee? m) 0 (threading.arrange receiver args) (threading.arrange receiver' args')) :
      Unwraps s (.methodCall threading receiver m args span) (.methodCall threading receiver' m args' span)
  | member {s : Scope} {target target' : Expr} {field : String} {span : Span} (h : Unwraps s target target') :
      Unwraps s (.member target field span) (.member target' field span)
  | get {s : Scope} {collection collection' key key' : Expr} {span : Span} (hc : Unwraps s collection collection')
      (hk : Unwraps s key key') : Unwraps s (.get collection key span) (.get collection' key' span)
  | vector {s : Scope} {items items' : List Expr} {span : Span} (h : UnwrapsArgs s none 0 items items') :
      Unwraps s (.vector items span) (.vector items' span)
  | map {s : Scope} {entries entries' : List Entry} {span : Span} (h : UnwrapsEntries s entries entries') :
      Unwraps s (.map entries span) (.map entries' span)
  | block {s : Scope} {b b' : Block} (h : UnwrapsBlock s b b') : Unwraps s (.block b) (.block b')
  | letIn {s : Scope} {bindings bindings' : List Binding} {body body' : Block} {span : Span}
      (hb : UnwrapsBindings s.child bindings bindings')
      (h : UnwrapsBlock (s.after (s.child.bindAll bindings)) body body') :
      Unwraps s (.letIn bindings body span) (.letIn bindings' body' span)
  | forEach {s : Scope} {vars : List LocalName} {iterable iterable' : Expr} {body body' : Block} {span : Span}
      (hi : Unwraps s iterable iterable') (h : UnwrapsBlock (s.loopBody vars iterable) body body') :
      Unwraps s (.forEach vars iterable body span) (.forEach vars iterable' body' span)
  | cond {s : Scope} {branches branches' : List Branch} {span : Span} (h : UnwrapsBranches s.child branches branches') :
      Unwraps s (.cond branches none span) (.cond branches' none span)
  | condElse {s : Scope} {branches branches' : List Branch} {b b' : Block} {span : Span}
      (h : UnwrapsBranches s.child branches branches') (hb : UnwrapsBlock s.child b b') :
      Unwraps s (.cond branches (some b) span) (.cond branches' (some b') span)
  | lambda {s : Scope} {params : List LambdaParam} {body body' : Expr} {span : Span}
      (h : Unwraps (s.lambdaBody params) body body') :
      Unwraps s (.lambda params body span) (.lambda params body' span)
  | paren {s : Scope} {e e' : Expr} {span : Span} (h : Unwraps s e e') : Unwraps s (.paren e span) (.paren e' span)
  | takeOff {s : Scope} {e e' : Expr} {span : Span} (h : Unwraps s e e') : Unwraps s (.paren e span) e'

/-- The same for the arguments of a call, from number `index` on. -/
inductive UnwrapsArgs : Scope → Option Callee → Nat → List Expr → List Expr → Prop
  | nil (s : Scope) (callee : Option Callee) (index : Nat) : UnwrapsArgs s callee index [] []
  | cons {s : Scope} {callee : Option Callee} {index : Nat} {e e' : Expr} {es es' : List Expr} (h : Unwraps s e e')
      (hmay : s.MayBecome callee index e e') (hs : UnwrapsArgs s callee (index + 1) es es') :
      UnwrapsArgs s callee index (e :: es) (e' :: es')

/-- The same for the entries of a map. -/
inductive UnwrapsEntries : Scope → List Entry → List Entry → Prop
  | nil (s : Scope) : UnwrapsEntries s [] []
  | cons {s : Scope} {key key' value value' : Expr} {es es' : List Entry} (hk : Unwraps s key key') (hv : Unwraps s value value')
      (hs : UnwrapsEntries s es es') : UnwrapsEntries s (⟨key, value⟩ :: es) (⟨key', value'⟩ :: es')

/-- The same for the bindings of a let. -/
inductive UnwrapsBindings : Scope → List Binding → List Binding → Prop
  | nil (s : Scope) : UnwrapsBindings s [] []
  | cons {s : Scope} {name : String} {value value' : Expr} {span : Span} {bs bs' : List Binding} (h : Unwraps s value value')
      (hs : UnwrapsBindings (s.after ((s.typeOf value).map (s.addVariable name))) bs bs') :
      UnwrapsBindings s (⟨name, value, span⟩ :: bs) (⟨name, value', span⟩ :: bs')

/-- The same for the branches of a conditional. -/
inductive UnwrapsBranches : Scope → List Branch → List Branch → Prop
  | nil (s : Scope) : UnwrapsBranches s [] []
  | cons {s : Scope} {condition condition' : Expr} {body body' : Block} {bs bs' : List Branch}
      (hc : Unwraps s condition condition') (hb : UnwrapsBlock s body body') (hs : UnwrapsBranches s bs bs') :
      UnwrapsBranches s (⟨condition, body⟩ :: bs) (⟨condition', body'⟩ :: bs')

/-- The same for a block. -/
inductive UnwrapsBlock : Scope → Block → Block → Prop
  | stmts {s : Scope} {stmts stmts' : List Stmt} {span : Span} (h : UnwrapsStmts s.child stmts stmts') :
      UnwrapsBlock s ⟨stmts, span⟩ ⟨stmts', span⟩

/-- The same for statements. -/
inductive UnwrapsStmts : Scope → List Stmt → List Stmt → Prop
  | nil (s : Scope) : UnwrapsStmts s [] []
  | cons {s : Scope} {st st' : Stmt} {stmts stmts' : List Stmt} (h : UnwrapsStmt s st st')
      (hs : UnwrapsStmts (s.after (s.declare st)) stmts stmts') : UnwrapsStmts s (st :: stmts) (st' :: stmts')

/-- The same for the methods of a record. -/
inductive UnwrapsMethods : Scope → Ty → List Param → List Method → List Method → Prop
  | nil (s : Scope) (receiver : Ty) (fields : List Param) : UnwrapsMethods s receiver fields [] []
  | cons {s : Scope} {receiver : Ty} {fields : List Param} {name : String} {params : List Param} {ret : Option Annotation}
      {body body' : Block} {span : Span} {ms ms' : List Method}
      (h : UnwrapsBlock (s.methodBody receiver fields name params ret) body body')
      (hs : UnwrapsMethods (s.afterMethod receiver name params ret) receiver fields ms ms') :
      UnwrapsMethods s receiver fields (⟨name, params, ret, body, span⟩ :: ms) (⟨name, params, ret, body', span⟩ :: ms')

/-- The same for the implementations of a record. -/
inductive UnwrapsImplementations : Scope → Ty → List Param → List Implementation → List Implementation → Prop
  | nil (s : Scope) (receiver : Ty) (fields : List Param) : UnwrapsImplementations s receiver fields [] []
  | cons {s : Scope} {receiver : Ty} {fields : List Param} {protocol : String} {methods methods' : List Method} {span : Span}
      {is is' : List Implementation} (h : UnwrapsMethods s receiver fields methods methods')
      (hs : UnwrapsImplementations (s.after (s.declareMethods receiver methods)) receiver fields is is') :
      UnwrapsImplementations s receiver fields (⟨protocol, methods, span⟩ :: is) (⟨protocol, methods', span⟩ :: is')

/-- The same for a statement. -/
inductive UnwrapsStmt : Scope → Stmt → Stmt → Prop
  | function {s : Scope} {name : String} {generics : List String} {params : List Param} {ret : Option Annotation}
      {body body' : Block} {span : Span} (h : UnwrapsBlock (s.functionBody name generics params ret) body body') :
      UnwrapsStmt s (.function name generics params ret body span) (.function name generics params ret body' span)
  | record {s : Scope} {name : String} {fields : List Param} {is is' : List Implementation} {span : Span}
      (h : UnwrapsImplementations (s.recordBody name fields) (.simple name) fields is is') :
      UnwrapsStmt s (.record name fields is span) (.record name fields is' span)
  | define {s : Scope} {name : String} {ty : Option Annotation} {value value' : Expr} {span : Span} (h : Unwraps s value value') :
      UnwrapsStmt s (.define name ty value span) (.define name ty value' span)
  | expr {s : Scope} {e e' : Expr} (h : Unwraps s e e') : UnwrapsStmt s (.expr e) (.expr e')

end

end Scope

/-- The second program is the first with some parentheses taken off. -/
structure Program.Unwraps (p p' : Program) : Prop where
  imports : p'.imports = p.imports
  body : Scope.UnwrapsStmts (Scope.prelude.after (Scope.prelude.child.declareImports p.imports).verdict) p.body p'.body
  span : p'.span = p.span

end Gradual
