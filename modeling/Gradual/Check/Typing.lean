import Gradual.Call.Result
import Gradual.Check.Resolve

/-!
# Typing: the type of an expression, as far as it is known

The type of an expression is read off without checking the expression: the operands of operators, the items of collections and
the arguments of plain functions are not looked at. It is unknown when it depends on something that is known by name only. A
block's definitions are bound at a level of their own, which ends with the block.
-/

namespace Gradual

/-- The type of a literal. -/
def Literal.type : Literal → Ty
  | .number _ => .number
  | .string _ => .string
  | .symbol _ => .symbol
  | .bool _ => .boolean
  | .nil => .nil

/-- The type of what an operator between two operands yields. -/
def BinaryOp.type : BinaryOp → Ty
  | .add | .sub | .mul | .div | .rem => .number
  | _ => .boolean

/-- The type of what an operator before one operand yields. -/
def UnaryOp.type : UnaryOp → Ty
  | .neg => .number
  | .not => .boolean

/-- The type of what a key gets from a collection: the element of a sequence, or the value of a map. -/
def Ty.entry? (t : Ty) : Option Ty :=
  match t.element? with
  | some e => some e
  | none =>
    match t with
    | .applied n [_, v] => if n == "Map" then some v else none
    | _ => none

/-- The type that all branches of a conditional have: that of the first, with which the others must be compatible. -/
def commonBranchType : List (Ty × Span) → Outcome (Option Ty)
  | [] => .ok none
  | (expected, _) :: others =>
    match others.find? fun (t, _) => !t.isCompatibleWith expected with
    | some (actual, span) => .error ((Cause.branchTypes expected actual).at span)
    | none => .ok (some expected)

namespace Scope

/-- The type of a name: a generic function has none as a value. -/
def nameType (s : Scope) (name : String) (span : Span) : Outcome (Option Ty) :=
  match s.value? name with
  | some (.variable ty) => .ok ty
  | some (.function (some d)) => .ok (if d.isGeneric then none else some d.functionType)
  | some (.function none) => .ok none
  | none => .error ((Cause.unknownVariable name).at span)

/-- The types of a lambda's parameters and the scope that binds them, none when an annotation is missing. The annotations are
resolved in `s`, around the level `inner` that binds the parameters. -/
def lambdaScope (s inner : Scope) : List LambdaParam → Outcome (Option (List Ty × Scope))
  | [] => .ok (some ([], inner))
  | p :: ps =>
    match p.ty with
    | none => .ok none
    | some a => do
      let t ← s.resolve a
      match ← lambdaScope s (inner.addParameter p.name t) ps with
      | none => pure none
      | some (ts, inner) => pure (some (t :: ts, inner))

/-- Binds the declarations of methods. -/
def declareMethods (s : Scope) (receiver : Ty) : List Method → Outcome Scope
  | [] => .ok s
  | ⟨name, params, ret, _, _⟩ :: ms => do
    let d ← s.methodDeclaration receiver name params ret
    declareMethods (s.addFunction name d) receiver ms

/-- Binds the declarations of the methods of implementations. -/
def declareImplementations (s : Scope) (receiver : Ty) : List Implementation → Outcome Scope
  | [] => .ok s
  | ⟨_, methods, _⟩ :: is => do
    let s ← s.declareMethods receiver methods
    declareImplementations s receiver is

/-- Binds a function. -/
def declareFunction (s : Scope) (name : String) (generics : List String) (params : List Param) (ret : Option Annotation) :
    Outcome Scope := do
  let d ← (s.withGenerics name generics).functionDeclaration name generics params ret
  pure (s.addFunction name d)

/-- Binds a record: its type, its constructor and its methods. -/
def declareRecord (s : Scope) (name : String) (fields : List Param) (implementations : List Implementation) :
    Outcome Scope := do
  let s := s.addType name (.simple name)
  let layout ← s.recordLayout name fields
  let s := (s.addFunction name (some layout.constructor)).addRecord layout
  s.declareImplementations (.simple name) implementations

mutual

/-- The type of an expression, none when it is unknown. -/
def typeOf (s : Scope) : Expr → Outcome (Option Ty)
  | .literal v _ => .ok (some v.type)
  | .name n span => s.nameType n span
  | .binary op _ _ _ => .ok (some op.type)
  | .unary op _ _ => .ok (some op.type)
  | .call f args span =>
    match s.callee? f with
    | none => .error ((Cause.unknownFunction f).at span)
    | some .untyped => .ok none
    | some (.typed d) => if d.isGeneric then do
        let ts ← argTypes s d 0 args
        Outcome.ofCall f span (d.resultType ts)
      else .ok (some d.ret)
  | .methodCall threading receiver m args span =>
    match s.callee? m with
    | none => .error ((Cause.unknownFunction m).at span)
    | some .untyped => .ok none
    | some (.typed d) => if d.isGeneric then do
        let ts ← match threading with
          | .first => do
            let t ← s.argType d 0 receiver (typeOf s receiver)
            let ts ← argTypes s d 1 args
            pure (t :: ts)
          | .last => do
            let ts ← argTypes s d 0 args
            let t ← s.argType d args.length receiver (typeOf s receiver)
            pure (ts ++ [t])
        Outcome.ofCall m span (d.resultType ts)
      else .ok (some d.ret)
  | .member target field span => do
    let t ← typeOf s target
    s.memberType t field span
  | .get collection _ _ => do
    let t ← typeOf s collection
    pure (t.bind Ty.entry?)
  | .vector _ _ => .ok (some (.simple "Vector"))
  | .map _ _ => .ok (some (.simple "Map"))
  | .block b => blockType s b
  | .letIn bindings body _ => do
    let inner ← bindAll s.child bindings
    blockType inner body
  | .forEach _ _ _ _ => .ok (some (.simple "List"))
  | .cond _ none _ => .ok none
  | .cond branches (some otherwise) _ => do
    match ← branchTypes s branches with
    | none => pure none
    | some ts =>
      match ← blockType s otherwise with
      | none => pure none
      | some t => commonBranchType (ts ++ [(t, otherwise.span)])
  | .lambda params body _ => do
    match ← s.lambdaScope s.child params with
    | none => pure none
    | some (ts, inner) =>
      let ret ← typeOf inner body
      pure (ret.map (.function ts))
  | .paren e _ => typeOf s e

/-- The types of the arguments of a call of `d` from number `index` on. -/
def argTypes (s : Scope) (d : Declaration) (index : Nat) : List Expr → Outcome ArgTypes
  | [] => .ok []
  | e :: es => do
    let t ← s.argType d index e (typeOf s e)
    let ts ← argTypes s d (index + 1) es
    pure (t :: ts)

/-- Binds the names of a let one after the other. -/
def bindAll (s : Scope) : List Binding → Outcome Scope
  | [] => .ok s
  | ⟨name, value, _⟩ :: bs => do
    let t ← typeOf s value
    bindAll (s.addVariable name t) bs

/-- The types of branches with the spans of their blocks, none as soon as one is unknown. -/
def branchTypes (s : Scope) : List Branch → Outcome (Option (List (Ty × Span)))
  | [] => .ok (some [])
  | ⟨_, body⟩ :: bs => do
    match ← blockType s body with
    | none => pure none
    | some t =>
      match ← branchTypes s bs with
      | none => pure none
      | some ts => pure (some ((t, body.span) :: ts))

/-- The type of a block. -/
def blockType (s : Scope) : Block → Outcome (Option Ty)
  | ⟨stmts, _⟩ => bodyType s.child stmts

/-- The type of the last of some statements, which must be an expression, after those before it; that of `nil` without any. -/
def bodyType (s : Scope) : List Stmt → Outcome (Option Ty)
  | [] => .ok (some .nil)
  | [.expr e] => typeOf s e
  | [stmt] => .error (Cause.notExpression.at stmt.span)
  | stmt :: stmts => do
    let s ← declare s stmt
    bodyType s stmts

/-- Binds what a statement defines. -/
def declare (s : Scope) : Stmt → Outcome Scope
  | .define name (some a) _ _ => do
    let t ← s.resolve a
    pure (s.addVariable name (some t))
  | .define name none value _ => do
    let t ← typeOf s value
    pure (s.addVariable name t)
  | .function name generics params ret _ _ => s.declareFunction name generics params ret
  | .record name fields implementations _ => s.declareRecord name fields implementations
  | .expr _ => .ok s

end

end Scope

end Gradual
