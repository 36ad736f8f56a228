import Gradual.Check.Run
import Gradual.Check.Typing
import Gradual.Scope.Prelude

/-!
# Validity: the check of a program

The program is walked once, in the order of its text, and the walk stops at the first issue. Every construct that binds names
binds them at a level of its own, and a value name is bound at most once at a level. A function is bound before its body is
checked, so it may call itself. A record binds its type, its constructor and its methods at the level it stands at.
-/

namespace Gradual

/-- A step of the check. -/
abbrev Checking (α : Type) : Type := Run Rejection α

namespace Scope

/-- A function, a record or a method may be declared only under a name that is not bound at its level. -/
def ensureNewFunction (s : Scope) (name : String) (span : Span) : Outcome Unit :=
  if s.level.hasValue name then .error ((Cause.functionDeclared name).at span) else .ok ()

/-- A variable or a parameter may be declared only under a name that is not bound at its level. -/
def ensureNewVariable (s : Scope) (name : String) (span : Span) : Outcome Unit :=
  if s.level.hasValue name then .error ((Cause.variableDeclared name).at span) else .ok ()

/-- A record may be declared only under a name that is bound at its level neither as a type nor as a value. -/
def ensureNewRecord (s : Scope) (name : String) (span : Span) : Outcome Unit :=
  if s.level.hasType name then .error ((Cause.functionDeclared name).at span) else s.ensureNewFunction name span

/-- The first name of a list that stands earlier in it, after the names `seen`. -/
def repeated? (seen : List String) : List String → Option String
  | [] => none
  | n :: ns => if seen.contains n then some n else repeated? (seen ++ [n]) ns

/-- The fields of a record have different names. -/
def ensureDistinctFields (fields : List Param) (span : Span) : Outcome Unit :=
  match repeated? [] (fields.map (·.name)) with
  | some n => .error ((Cause.variableDeclared n).at span)
  | none => .ok ()

/-- Binds parameters one after the other. -/
def declareParams (s : Scope) : List Param → Outcome Scope
  | [] => .ok s
  | p :: ps => do
    s.ensureNewVariable p.name p.span
    let t ← s.resolve p.ty
    declareParams (s.addParameter p.name t) ps

/-- Binds the parameters of a lambda one after the other; one without an annotation has no type. -/
def declareLambdaParams (s : Scope) : List LambdaParam → Outcome Scope
  | [] => .ok s
  | p :: ps => do
    s.ensureNewVariable p.name p.span
    match p.ty with
    | some a => do
      let t ← s.resolve a
      declareLambdaParams (s.addParameter p.name t) ps
    | none => declareLambdaParams (s.addVariable p.name none) ps

/-- Binds the variables of a loop, all with one type. -/
def declareLoopVars (s : Scope) (ty : Option Ty) : List LocalName → Outcome Scope
  | [] => .ok s
  | v :: vs => do
    s.ensureNewVariable v.name v.span
    declareLoopVars (s.addVariable v.name ty) ty vs

/-- The type of a loop's variable: the element of what is looped over, and unknown when there are several variables. -/
def loopVarType (s : Scope) (vars : List LocalName) (iterable : Expr) : Outcome (Option Ty) :=
  match vars with
  | [_] => do
    let t ← s.typeOf iterable
    pure (t.bind Ty.element?)
  | _ => .ok none

/-- The type of a variable from its annotation and its value: the value must implement the annotation. -/
def variableType (s : Scope) (name : String) (ty : Option Annotation) (value : Option Ty) (span : Span) :
    Outcome (Option Ty) :=
  match ty with
  | none => .ok value
  | some a => do
    let expected ← s.resolve a
    match value with
    | some actual =>
      if actual.implements expected then pure (some expected)
      else .error ((Cause.variableType name expected actual).at span)
    | none => pure (some expected)

/-- The check of a call whose arguments were checked, in the order the callee receives them. -/
def checkArguments (s : Scope) (callee : Callee) (name : String) (args : List Expr) (span : Span) : Checking Unit :=
  match callee with
  | .untyped => Run.log (.untypedCall name)
  | .typed d => do
    let ts ← Run.ofExcept (s.argTypes d 0 args)
    Run.log (.typedCall name d.isGeneric ts.length)
    Run.ofExcept (Outcome.ofCall name span (d.checkCall ts))

/-- What the name of a call stands for, which must be something. -/
def expectCallee (s : Scope) (name : String) (span : Span) : Outcome Callee :=
  match s.callee? name with
  | some c => .ok c
  | none => .error ((Cause.unknownFunction name).at span)

/-- A name must stand for a value. -/
def checkName (s : Scope) (name : String) (span : Span) : Outcome Unit :=
  if (s.value? name).isSome then .ok () else .error ((Cause.unknownVariable name).at span)

mutual

/-- The check of an expression. -/
def checkExpr (s : Scope) : Expr → Checking Unit
  | .literal _ _ => pure ()
  | .name n span => Run.ofExcept (s.checkName n span)
  | .binary _ l r _ => do
    checkExpr s l
    checkExpr s r
  | .unary _ e _ => checkExpr s e
  | .call f args span => do
    let callee ← Run.ofExcept (s.expectCallee f span)
    checkExprs s args
    s.checkArguments callee f args span
  | .methodCall threading receiver m args span => do
    let callee ← Run.ofExcept (s.expectCallee m span)
    match threading with
    | .first => do
      checkExpr s receiver
      checkExprs s args
    | .last => do
      checkExprs s args
      checkExpr s receiver
    s.checkArguments callee m (threading.arrange receiver args) span
  | .member target field span => do
    checkExpr s target
    let t ← Run.ofExcept (s.typeOf target)
    let _ ← Run.ofExcept (s.memberType t field span)
    pure ()
  | .get collection key _ => do
    checkExpr s collection
    checkExpr s key
  | .vector items _ => checkExprs s items
  | .map entries _ => checkEntries s entries
  | .block b => checkBlock s b
  | .letIn bindings body _ => do
    let inner ← checkBindings s.child bindings
    checkBlock inner body
  | .forEach vars iterable body _ => do
    checkExpr s iterable
    let t ← Run.ofExcept (s.loopVarType vars iterable)
    let inner ← Run.ofExcept (s.child.declareLoopVars t vars)
    checkBlock inner body
  | .cond branches otherwise _ => do
    checkBranches s.child branches
    checkBlock? s.child otherwise
  | .lambda params body _ => do
    let inner ← Run.ofExcept (s.child.declareLambdaParams params)
    checkExpr inner body
  | .paren e _ => checkExpr s e

/-- The check of expressions, in order. -/
def checkExprs (s : Scope) : List Expr → Checking Unit
  | [] => pure ()
  | e :: es => do
    checkExpr s e
    checkExprs s es

/-- The check of the entries of a map, in order. -/
def checkEntries (s : Scope) : List Entry → Checking Unit
  | [] => pure ()
  | ⟨key, value⟩ :: es => do
    checkExpr s key
    checkExpr s value
    checkEntries s es

/-- The check of the bindings of a let, each at a scope that binds those before it. -/
def checkBindings (s : Scope) : List Binding → Checking Scope
  | [] => pure s
  | ⟨name, value, span⟩ :: bs => do
    Run.ofExcept (s.ensureNewVariable name span)
    checkExpr s value
    let t ← Run.ofExcept (s.typeOf value)
    checkBindings (s.addVariable name t) bs

/-- The check of the branches of a conditional, in order. -/
def checkBranches (s : Scope) : List Branch → Checking Unit
  | [] => pure ()
  | ⟨condition, body⟩ :: bs => do
    checkExpr s condition
    checkBlock s body
    checkBranches s bs

/-- The check of a block that may be missing. -/
def checkBlock? (s : Scope) : Option Block → Checking Unit
  | none => pure ()
  | some b => checkBlock s b

/-- The check of a block, at a level of its own. -/
def checkBlock (s : Scope) : Block → Checking Unit
  | ⟨stmts, _⟩ => do
    let _ ← checkStmts s.child stmts
    pure ()

/-- The check of statements, each at the scope that those before it leave. -/
def checkStmts (s : Scope) : List Stmt → Checking Scope
  | [] => pure s
  | stmt :: stmts => do
    let s ← checkStmt s stmt
    checkStmts s stmts

/-- The check of the methods of a record, each bound before its body is checked: the body sees the fields, `self` and the
parameters. -/
def checkMethods (s : Scope) (receiver : Ty) (fields : List Param) : List Method → Checking Scope
  | [] => pure s
  | ⟨name, params, ret, body, span⟩ :: ms => do
    Run.ofExcept (s.ensureNewFunction name span)
    let d ← Run.ofExcept (s.methodDeclaration receiver name params ret)
    Run.log (.methodDeclared name receiver)
    let s := s.addFunction name d
    let around ← Run.ofExcept (s.child.declareParams fields)
    let inner ← Run.ofExcept ((around.child.addVariable "self" (some receiver)).declareParams params)
    checkBlock inner body
    checkMethods s receiver fields ms

/-- The check of the implementations of a record, in order. -/
def checkImplementations (s : Scope) (record : String) (fields : List Param) : List Implementation → Checking Scope
  | [] => pure s
  | ⟨protocol, methods, _⟩ :: is => do
    Run.log (.implementation record protocol)
    let s ← checkMethods s (.simple record) fields methods
    checkImplementations s record fields is

/-- The check of a statement, which yields the scope with what it defines. -/
def checkStmt (s : Scope) : Stmt → Checking Scope
  | .function name generics params ret body span => do
    Run.ofExcept (s.ensureNewFunction name span)
    let d ← Run.ofExcept ((s.withGenerics name generics).functionDeclaration name generics params ret)
    Run.log (.functionDeclared name d.isSome (!generics.isEmpty) s.depth)
    let s := s.addFunction name d
    let inner ← Run.ofExcept ((s.withGenerics name generics).child.declareParams params)
    checkBlock inner body
    pure s
  | .record name fields implementations span => do
    Run.ofExcept (s.ensureNewRecord name span)
    Run.ofExcept (ensureDistinctFields fields span)
    let s := s.addType name (.simple name)
    let layout ← Run.ofExcept (s.recordLayout name fields)
    Run.log (.recordDeclared name layout.fields.length)
    let s := (s.addFunction name (some layout.constructor)).addRecord layout
    checkImplementations s name fields implementations
  | .define name ty value span => do
    Run.ofExcept (s.ensureNewVariable name span)
    checkExpr s value
    let actual ← Run.ofExcept (s.typeOf value)
    let t ← Run.ofExcept (s.variableType name ty actual span)
    Run.log (.variableDeclared name t)
    pure (s.addVariable name t)
  | .expr e => do
    checkExpr s e
    pure s

end

/-- Binds the classes that imports name. -/
def declareImports (s : Scope) : List Import → Checking Scope
  | [] => pure s
  | i :: is =>
    match i.binding? with
    | none => Run.ofExcept (.error (.internal (.emptyImport i.span)))
    | some name => do
      Run.log (.imported name)
      declareImports (s.addType name (.simple name)) is

end Scope

/-- The check of a program, inside the prelude. -/
def Program.validate (p : Program) : Checking Unit := do
  let s ← Scope.prelude.child.declareImports p.imports
  let _ ← s.checkStmts p.body
  Run.log (.validated p.body.length)

end Gradual
