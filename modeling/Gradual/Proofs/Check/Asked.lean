import Gradual.Proofs.Check.Visited

/-!
# The check asks only the scopes that are listed

All that the check of a program learns about names it learns by asking scopes (`Answers`). `Scope.checkExprBy` is the check with
the answers left open, so that any scope may be made to answer anything. Where each scope that `Scope.visited` lists answers for
itself, it is the check (`Scope.checkExprBy_eq`), and likewise for programs (`Program.validateBy_eq`): the answers of all other
scopes play no part, which is to say that the list leaves out no scope that the check works in.
-/

namespace Gradual

/-- All that the check of a program asks a scope. -/
structure Answers where
  newFunction : String → Span → Outcome Unit
  newVariable : String → Span → Outcome Unit
  newRecord : String → Span → Outcome Unit
  name : String → Span → Outcome Unit
  callee : String → Span → Outcome Callee
  arguments : Callee → String → List Expr → Span → Checking Unit
  typeOf : Expr → Outcome (Option Ty)
  member : Option Ty → String → Span → Outcome (Option Ty)
  loopVar : List LocalName → Expr → Outcome (Option Ty)
  define : String → Option Annotation → Option Ty → Span → Outcome (Option Ty)
  resolve : Annotation → Outcome Ty
  function : String → List String → List Param → Option Annotation → Outcome (Option Declaration)
  method : Ty → String → List Param → Option Annotation → Outcome (Option Declaration)
  record : String → List Param → Outcome RecordLayout

namespace Scope

/-- What a scope answers by its own bindings. -/
def answers (s : Scope) : Answers where
  newFunction := s.ensureNewFunction
  newVariable := s.ensureNewVariable
  newRecord := s.ensureNewRecord
  name := s.checkName
  callee := s.expectCallee
  arguments := s.checkArguments
  typeOf := s.typeOf
  member := s.memberType
  loopVar := s.loopVarType
  define := s.variableType
  resolve := s.resolve
  function := s.functionDeclaration
  method := s.methodDeclaration
  record := s.recordLayout

/-! ## The check with the answers left open -/

variable (ask : Scope → Answers)

/-- Binds parameters one after the other, as the scopes answer. -/
def declareParamsBy (s : Scope) : List Param → Outcome Scope
  | [] => .ok s
  | p :: ps => do
    (ask s).newVariable p.name p.span
    let t ← (ask s).resolve p.ty
    declareParamsBy (s.addParameter p.name t) ps

/-- Binds the parameters of a lambda one after the other, as the scopes answer. -/
def declareLambdaParamsBy (s : Scope) : List LambdaParam → Outcome Scope
  | [] => .ok s
  | p :: ps => do
    (ask s).newVariable p.name p.span
    match p.ty with
    | some a => do
      let t ← (ask s).resolve a
      declareLambdaParamsBy (s.addParameter p.name t) ps
    | none => declareLambdaParamsBy (s.addVariable p.name none) ps

/-- Binds the variables of a loop, all with one type, as the scopes answer. -/
def declareLoopVarsBy (s : Scope) (ty : Option Ty) : List LocalName → Outcome Scope
  | [] => .ok s
  | v :: vs => do
    (ask s).newVariable v.name v.span
    declareLoopVarsBy (s.addVariable v.name ty) ty vs

mutual

/-- The check of an expression, as the scopes answer. -/
def checkExprBy (s : Scope) : Expr → Checking Unit
  | .literal _ _ => pure ()
  | .name n span => Run.ofExcept ((ask s).name n span)
  | .binary _ l r _ => do
    checkExprBy s l
    checkExprBy s r
  | .unary _ e _ => checkExprBy s e
  | .call f args span => do
    let callee ← Run.ofExcept ((ask s).callee f span)
    checkExprsBy s args
    (ask s).arguments callee f args span
  | .methodCall threading receiver m args span => do
    let callee ← Run.ofExcept ((ask s).callee m span)
    match threading with
    | .first => do
      checkExprBy s receiver
      checkExprsBy s args
    | .last => do
      checkExprsBy s args
      checkExprBy s receiver
    (ask s).arguments callee m (threading.arrange receiver args) span
  | .member target field span => do
    checkExprBy s target
    let t ← Run.ofExcept ((ask s).typeOf target)
    let _ ← Run.ofExcept ((ask s).member t field span)
    pure ()
  | .get collection key _ => do
    checkExprBy s collection
    checkExprBy s key
  | .vector items _ => checkExprsBy s items
  | .map entries _ => checkEntriesBy s entries
  | .block b => checkBlockBy s b
  | .letIn bindings body _ => do
    let inner ← checkBindingsBy s.child bindings
    checkBlockBy inner body
  | .forEach vars iterable body _ => do
    checkExprBy s iterable
    let t ← Run.ofExcept ((ask s).loopVar vars iterable)
    let inner ← Run.ofExcept (declareLoopVarsBy ask s.child t vars)
    checkBlockBy inner body
  | .cond branches otherwise _ => do
    checkBranchesBy s.child branches
    checkBlockBy? s.child otherwise
  | .lambda params body _ => do
    let inner ← Run.ofExcept (declareLambdaParamsBy ask s.child params)
    checkExprBy inner body
  | .paren e _ => checkExprBy s e

/-- The check of expressions in order, as the scopes answer. -/
def checkExprsBy (s : Scope) : List Expr → Checking Unit
  | [] => pure ()
  | e :: es => do
    checkExprBy s e
    checkExprsBy s es

/-- The check of the entries of a map in order, as the scopes answer. -/
def checkEntriesBy (s : Scope) : List Entry → Checking Unit
  | [] => pure ()
  | ⟨key, value⟩ :: es => do
    checkExprBy s key
    checkExprBy s value
    checkEntriesBy s es

/-- The check of the bindings of a let, as the scopes answer. -/
def checkBindingsBy (s : Scope) : List Binding → Checking Scope
  | [] => pure s
  | ⟨name, value, span⟩ :: bs => do
    Run.ofExcept ((ask s).newVariable name span)
    checkExprBy s value
    let t ← Run.ofExcept ((ask s).typeOf value)
    checkBindingsBy (s.addVariable name t) bs

/-- The check of the branches of a conditional in order, as the scopes answer. -/
def checkBranchesBy (s : Scope) : List Branch → Checking Unit
  | [] => pure ()
  | ⟨condition, body⟩ :: bs => do
    checkExprBy s condition
    checkBlockBy s body
    checkBranchesBy s bs

/-- The check of a block that may be missing, as the scopes answer. -/
def checkBlockBy? (s : Scope) : Option Block → Checking Unit
  | none => pure ()
  | some b => checkBlockBy s b

/-- The check of a block, as the scopes answer. -/
def checkBlockBy (s : Scope) : Block → Checking Unit
  | ⟨stmts, _⟩ => do
    let _ ← checkStmtsBy s.child stmts
    pure ()

/-- The check of statements, as the scopes answer. -/
def checkStmtsBy (s : Scope) : List Stmt → Checking Scope
  | [] => pure s
  | stmt :: stmts => do
    let s ← checkStmtBy s stmt
    checkStmtsBy s stmts

/-- The check of the methods of a record, as the scopes answer. -/
def checkMethodsBy (s : Scope) (receiver : Ty) (fields : List Param) : List Method → Checking Scope
  | [] => pure s
  | ⟨name, params, ret, body, span⟩ :: ms => do
    Run.ofExcept ((ask s).newFunction name span)
    let d ← Run.ofExcept ((ask s).method receiver name params ret)
    Run.log (.methodDeclared name receiver)
    let s := s.addFunction name d
    let around ← Run.ofExcept (declareParamsBy ask s.child fields)
    let inner ← Run.ofExcept (declareParamsBy ask (around.child.addVariable "self" (some receiver)) params)
    checkBlockBy inner body
    checkMethodsBy s receiver fields ms

/-- The check of the implementations of a record in order, as the scopes answer. -/
def checkImplementationsBy (s : Scope) (record : String) (fields : List Param) : List Implementation → Checking Scope
  | [] => pure s
  | ⟨protocol, methods, _⟩ :: is => do
    Run.log (.implementation record protocol)
    let s ← checkMethodsBy s (.simple record) fields methods
    checkImplementationsBy s record fields is

/-- The check of a statement, as the scopes answer. -/
def checkStmtBy (s : Scope) : Stmt → Checking Scope
  | .function name generics params ret body span => do
    Run.ofExcept ((ask s).newFunction name span)
    let d ← Run.ofExcept ((ask (s.withGenerics name generics)).function name generics params ret)
    Run.log (.functionDeclared name d.isSome (!generics.isEmpty) s.depth)
    let s := s.addFunction name d
    let inner ← Run.ofExcept (declareParamsBy ask (s.withGenerics name generics).child params)
    checkBlockBy inner body
    pure s
  | .record name fields implementations span => do
    Run.ofExcept ((ask s).newRecord name span)
    Run.ofExcept (ensureDistinctFields fields span)
    let s := s.addType name (.simple name)
    let layout ← Run.ofExcept ((ask s).record name fields)
    Run.log (.recordDeclared name layout.fields.length)
    let s := (s.addFunction name (some layout.constructor)).addRecord layout
    checkImplementationsBy s name fields implementations
  | .define name ty value span => do
    Run.ofExcept ((ask s).newVariable name span)
    checkExprBy s value
    let actual ← Run.ofExcept ((ask s).typeOf value)
    let t ← Run.ofExcept ((ask s).define name ty actual span)
    Run.log (.variableDeclared name t)
    pure (s.addVariable name t)
  | .expr e => do
    checkExprBy s e
    pure s

end

-- The equations of the walk are made here, once: the proofs below all ask for them.
attribute [local simp] checkExprBy checkExprsBy checkEntriesBy checkBindingsBy checkBranchesBy checkBlockBy? checkBlockBy
  checkStmtsBy checkMethodsBy checkImplementationsBy checkStmtBy

end Scope

/-- The check of a program, as the scopes answer. -/
def Program.validateBy (ask : Scope → Answers) (p : Program) : Checking Unit := do
  let s ← Scope.prelude.child.declareImports p.imports
  let _ ← s.checkStmtsBy ask p.body
  Run.log (.validated p.body.length)

/-- Runs with one first step are equal when they go on alike from what it yields. -/
theorem Run.bind_eq_of_ok {ε α β : Type} {r : Run ε α} {f g : α → Run ε β} (h : ∀ a, r.verdict = .ok a → f a = g a) :
    r >>= f = r >>= g := by
  obtain ⟨v, out⟩ := r
  cases v with
  | error e => rfl
  | ok a =>
    change Run.andThen ⟨.ok a, out⟩ f = Run.andThen ⟨.ok a, out⟩ g
    simp only [Run.andThen, h a rfl]

/-! ## Scopes that answer for themselves -/

/-- The scopes of a list answer for themselves. -/
def Honest (ask : Scope → Answers) (scopes : List Scope) : Prop := ∀ r ∈ scopes, ask r = r.answers

namespace Honest

variable {ask : Scope → Answers} {s : Scope} {scopes scopes' : List Scope}

/-- The first scope of a list answers for itself. -/
theorem head (h : Honest ask (s :: scopes)) : ask s = s.answers := h s List.mem_cons_self

/-- The scopes after the first answer for themselves. -/
theorem tail (h : Honest ask (s :: scopes)) : Honest ask scopes := fun r hr => h r (List.mem_cons_of_mem s hr)

/-- The first of two lists. -/
theorem left (h : Honest ask (scopes ++ scopes')) : Honest ask scopes := fun r hr => h r (List.mem_append_left _ hr)

/-- The second of two lists. -/
theorem right (h : Honest ask (scopes ++ scopes')) : Honest ask scopes' := fun r hr => h r (List.mem_append_right _ hr)

/-- The scopes that follow from a step that succeeds. -/
theorem next {ε α : Type} {x : Except ε α} {f : α → List Scope} (h : Honest ask (following x f)) {a : α} (ha : x = .ok a) :
    Honest ask (f a) := fun r hr => h r (mem_following_iff.2 ⟨a, ha, hr⟩)

end Honest

namespace Scope

variable {ask : Scope → Answers} {s : Scope}

/-! ## Lists of names -/

/-- Parameters are bound by asking the scopes listed for them. -/
theorem declareParamsBy_eq {ps : List Param} (h : Honest ask (s.paramScopes ps)) :
    declareParamsBy ask s ps = s.declareParams ps := by
  induction ps generalizing s with
  | nil => rfl
  | cons p ps ih =>
    rw [declareParamsBy, declareParams, h.head]
    refine bind_eq_of_ok fun _ hnew => bind_eq_of_ok fun t ht => ?_
    exact ih ((h.tail.next hnew).next ht)

/-- The parameters of a lambda are bound by asking the scopes listed for them. -/
theorem declareLambdaParamsBy_eq {ps : List LambdaParam} (h : Honest ask (s.lambdaParamScopes ps)) :
    declareLambdaParamsBy ask s ps = s.declareLambdaParams ps := by
  induction ps generalizing s with
  | nil => rfl
  | cons p ps ih =>
    rw [declareLambdaParamsBy, declareLambdaParams, h.head]
    refine bind_eq_of_ok fun _ hnew => ?_
    have hrest := h.tail.next hnew
    cases hp : p.ty with
    | none =>
      rw [hp] at hrest
      exact ih hrest
    | some a =>
      rw [hp] at hrest
      exact bind_eq_of_ok fun t ht => ih (hrest.next ht)

/-- The variables of a loop are bound by asking the scopes listed for them. -/
theorem declareLoopVarsBy_eq {ty : Option Ty} {vs : List LocalName} (h : Honest ask (s.loopVarScopes ty vs)) :
    declareLoopVarsBy ask s ty vs = s.declareLoopVars ty vs := by
  induction vs generalizing s with
  | nil => rfl
  | cons v vs ih =>
    rw [declareLoopVarsBy, declareLoopVars, h.head]
    exact bind_eq_of_ok fun _ hnew => ih (h.tail.next hnew)

/-! ## Parts in a row -/

/-- The check of an expression asks only the scopes that are listed for it. -/
def AsksVisited (ask : Scope → Answers) (e : Expr) : Prop :=
  ∀ s : Scope, Honest ask (s.visited e) → checkExprBy ask s e = s.checkExpr e

/-- The check of a block asks only the scopes that are listed for it. -/
def BlockAsksVisited (ask : Scope → Answers) (b : Block) : Prop :=
  ∀ s : Scope, Honest ask (s.visitedBlock b) → checkBlockBy ask s b = s.checkBlock b

/-- The check of a statement asks only the scopes that are listed for it. -/
def StmtAsksVisited (ask : Scope → Answers) (st : Stmt) : Prop :=
  ∀ s : Scope, Honest ask (s.visitedStmt st) → checkStmtBy ask s st = s.checkStmt st

/-- The check of expressions asks only the scopes that are listed for them. -/
theorem checkExprsBy_eq {es : List Expr} (ih : ∀ e ∈ es, AsksVisited ask e) (h : Honest ask (s.visitedAll es)) :
    checkExprsBy ask s es = s.checkExprs es := by
  induction es with
  | nil => rw [checkExprsBy, checkExprs]
  | cons e es ihes =>
    rw [List.forall_mem_cons] at ih
    rw [visitedAll] at h
    rw [checkExprsBy, checkExprs, ih.1 s h.left, ihes ih.2 h.right]

/-- The check of the entries of a map asks only the scopes that are listed for them. -/
theorem checkEntriesBy_eq {es : List Entry} (ih : ∀ e ∈ es, AsksVisited ask e.key ∧ AsksVisited ask e.value)
    (h : Honest ask (s.visitedEntries es)) : checkEntriesBy ask s es = s.checkEntries es := by
  induction es with
  | nil => rw [checkEntriesBy, checkEntries]
  | cons e es ihes =>
    obtain ⟨key, value⟩ := e
    rw [List.forall_mem_cons] at ih
    rw [visitedEntries] at h
    rw [checkEntriesBy, checkEntries, ih.1.1 s h.left, ih.1.2 s h.right.left, ihes ih.2 h.right.right]

/-- The check of the bindings of a let asks only the scopes that are listed for them. -/
theorem checkBindingsBy_eq {bs : List Binding} (ih : ∀ b ∈ bs, AsksVisited ask b.value) (h : Honest ask (s.visitedBindings bs)) :
    checkBindingsBy ask s bs = s.checkBindings bs := by
  induction bs generalizing s with
  | nil => rw [checkBindingsBy, checkBindings]
  | cons b bs ihbs =>
    obtain ⟨n, value, span⟩ := b
    rw [List.forall_mem_cons] at ih
    rw [visitedBindings] at h
    rw [checkBindingsBy, checkBindings, h.head]
    refine Run.bind_eq_of_ok fun _ hnew => ?_
    have hrest := h.tail.next hnew
    rw [ih.1 s hrest.left]
    exact Run.bind_eq_of_ok fun _ _ => Run.bind_eq_of_ok fun t ht => ihbs ih.2 (hrest.right.next ht)

/-- The check of the branches of a conditional asks only the scopes that are listed for them. -/
theorem checkBranchesBy_eq {bs : List Branch} (ih : ∀ b ∈ bs, AsksVisited ask b.condition ∧ BlockAsksVisited ask b.body)
    (h : Honest ask (s.visitedBranches bs)) : checkBranchesBy ask s bs = s.checkBranches bs := by
  induction bs with
  | nil => rw [checkBranchesBy, checkBranches]
  | cons b bs ihbs =>
    obtain ⟨condition, body⟩ := b
    rw [List.forall_mem_cons] at ih
    rw [visitedBranches] at h
    rw [checkBranchesBy, checkBranches, ih.1.1 s h.left, ih.1.2 s h.right.left, ihbs ih.2 h.right.right]

/-- The check of statements asks only the scopes that are listed for them. -/
theorem checkStmtsBy_eq {stmts : List Stmt} (ih : ∀ st ∈ stmts, StmtAsksVisited ask st) (h : Honest ask (s.visitedStmts stmts)) :
    checkStmtsBy ask s stmts = s.checkStmts stmts := by
  induction stmts generalizing s with
  | nil => rw [checkStmtsBy, checkStmts]
  | cons st stmts ihs =>
    rw [List.forall_mem_cons] at ih
    rw [visitedStmts] at h
    rw [checkStmtsBy, checkStmts, ih.1 s h.left]
    exact Run.bind_eq_of_ok fun r hr => ihs ih.2 (h.right.next hr)

/-- The check of the methods of a record asks only the scopes that are listed for them. -/
theorem checkMethodsBy_eq {record : String} {fields : List Param} {ms : List Method}
    (ih : ∀ m ∈ ms, BlockAsksVisited ask m.body) (h : Honest ask (s.visitedMethods record fields ms)) :
    checkMethodsBy ask s (.simple record) fields ms = s.checkMethods (.simple record) fields ms := by
  induction ms generalizing s with
  | nil => rw [checkMethodsBy, checkMethods]
  | cons m ms ihms =>
    obtain ⟨n, params, ret, body, span⟩ := m
    rw [List.forall_mem_cons] at ih
    rw [visitedMethods] at h
    rw [checkMethodsBy, checkMethods, h.head]
    refine Run.bind_eq_of_ok fun _ hnew => Run.bind_eq_of_ok fun d hd => Run.bind_eq_of_ok fun _ _ => ?_
    have hrest := (h.tail.next hnew).next hd
    dsimp only
    rw [declareParamsBy_eq hrest.left]
    refine Run.bind_eq_of_ok fun around haround => ?_
    have hself := hrest.right.left.next haround
    rw [declareParamsBy_eq hself.left]
    refine Run.bind_eq_of_ok fun inner hinner => ?_
    rw [ih.1 inner (hself.right.next hinner), ihms ih.2 hrest.right.right]

/-- The check of the implementations of a record asks only the scopes that are listed for them. -/
theorem checkImplementationsBy_eq {record : String} {fields : List Param} {is : List Implementation}
    (ih : ∀ i ∈ is, ∀ m ∈ i.methods, BlockAsksVisited ask m.body) (h : Honest ask (s.visitedImplementations record fields is)) :
    checkImplementationsBy ask s record fields is = s.checkImplementations record fields is := by
  induction is generalizing s with
  | nil => rw [checkImplementationsBy, checkImplementations]
  | cons i is ihis =>
    obtain ⟨protocol, methods, span⟩ := i
    rw [List.forall_mem_cons] at ih
    rw [visitedImplementations] at h
    rw [checkImplementationsBy, checkImplementations, checkMethodsBy_eq ih.1 h.left]
    exact Run.bind_eq_of_ok fun _ _ => Run.bind_eq_of_ok fun r hr => ihis ih.2 (h.right.next hr)

/-! ## Every construct -/

/-- The check of each construct asks only the scopes that are listed for it, when the checks of its parts do. -/
theorem asksVisited_cases (ask : Scope → Answers) :
    TreeCases (AsksVisited ask) (BlockAsksVisited ask) (StmtAsksVisited ask) where
  literal v span s h := by rw [checkExprBy, checkExpr]
  name n span s h := by
    rw [visited] at h
    rw [checkExprBy, checkExpr, h.head]
    rfl
  binary op l r span ihl ihr s h := by
    rw [visited] at h
    rw [checkExprBy, checkExpr, ihl s h.tail.left, ihr s h.tail.right]
  unary op e span ih s h := by
    rw [visited] at h
    rw [checkExprBy, checkExpr, ih s h.tail]
  call f args span ih s h := by
    rw [visited] at h
    rw [checkExprBy, checkExpr, checkExprsBy_eq ih h.tail, h.head]
    rfl
  methodCall threading receiver m args span ihr ih s h := by
    rw [visited] at h
    rw [checkExprBy, checkExpr, ihr s h.tail.left, checkExprsBy_eq ih h.tail.right, h.head]
    rfl
  member target field span ih s h := by
    rw [visited] at h
    rw [checkExprBy, checkExpr, ih s h.tail, h.head]
    rfl
  get collection key span ihc ihk s h := by
    rw [visited] at h
    rw [checkExprBy, checkExpr, ihc s h.tail.left, ihk s h.tail.right]
  vector items span ih s h := by
    rw [visited] at h
    rw [checkExprBy, checkExpr, checkExprsBy_eq ih h.tail]
  map entries span ih s h := by
    rw [visited] at h
    rw [checkExprBy, checkExpr, checkEntriesBy_eq ih h.tail]
  block b ih s h := by
    rw [visited] at h
    rw [checkExprBy, checkExpr, ih s h.tail]
  letIn bindings body span ih ihb s h := by
    rw [visited] at h
    rw [checkExprBy, checkExpr, checkBindingsBy_eq ih h.tail.left]
    exact Run.bind_eq_of_ok fun inner hinner => ihb inner (h.tail.right.next hinner)
  forEach vars iterable body span ih ihb s h := by
    rw [visited] at h
    rw [checkExprBy, checkExpr, ih s h.tail.left, h.head]
    refine Run.bind_eq_of_ok fun _ _ => Run.bind_eq_of_ok fun t ht => ?_
    have hrest := h.tail.right.next ht
    rw [declareLoopVarsBy_eq hrest.left]
    exact Run.bind_eq_of_ok fun inner hinner => ihb inner (hrest.right.next hinner)
  cond branches otherwise span ih iho s h := by
    rw [visited] at h
    rw [checkExprBy, checkExpr, checkBranchesBy_eq ih h.tail.left]
    refine Run.bind_eq_of_ok fun _ _ => ?_
    have hrest := h.tail.right
    cases otherwise with
    | none => rw [checkBlockBy?, checkBlock?]
    | some b =>
      rw [visitedBlock?] at hrest
      rw [checkBlockBy?, checkBlock?, iho b rfl s.child hrest]
  lambda params body span ih s h := by
    rw [visited] at h
    rw [checkExprBy, checkExpr, declareLambdaParamsBy_eq h.tail.left]
    exact Run.bind_eq_of_ok fun inner hinner => ih inner (h.tail.right.next hinner)
  paren e span ih s h := by
    rw [visited] at h
    rw [checkExprBy, checkExpr, ih s h.tail]
  stmts stmts span ih s h := by
    rw [visitedBlock] at h
    rw [checkBlockBy, checkBlock, checkStmtsBy_eq ih h]
  function n generics params ret body span ih s h := by
    rw [visitedStmt] at h
    rw [checkStmtBy, checkStmt, h.head]
    refine Run.bind_eq_of_ok fun _ hnew => ?_
    have hgenerics := h.tail.next hnew
    rw [hgenerics.head]
    refine Run.bind_eq_of_ok fun d hd => Run.bind_eq_of_ok fun _ _ => ?_
    have hrest := hgenerics.tail.next hd
    dsimp only
    rw [declareParamsBy_eq hrest.left]
    refine Run.bind_eq_of_ok fun inner hinner => ?_
    rw [ih inner (hrest.right.next hinner)]
  record n fields implementations span ih s h := by
    rw [visitedStmt] at h
    rw [checkStmtBy, checkStmt, h.head]
    refine Run.bind_eq_of_ok fun _ hnew => Run.bind_eq_of_ok fun _ hfields => ?_
    have htype := (h.tail.next hnew).next hfields
    dsimp only
    rw [htype.head]
    refine Run.bind_eq_of_ok fun layout hl => Run.bind_eq_of_ok fun _ _ => ?_
    exact checkImplementationsBy_eq ih (htype.tail.next hl)
  define n ty value span ih s h := by
    rw [visitedStmt] at h
    rw [checkStmtBy, checkStmt, ih s h.tail, h.head]
    rfl
  expr e ih s h := by
    rw [visitedStmt] at h
    rw [checkStmtBy, checkStmt, ih s h]

/-- The check of an expression asks only the scopes that are listed for it: whatever all others would answer, it is the same. -/
theorem checkExprBy_eq {e : Expr} (h : Honest ask (s.visited e)) : checkExprBy ask s e = s.checkExpr e :=
  (asksVisited_cases ask).all_exprs e s h

end Scope

/-- The check of a program asks only the scopes that are listed for it: whatever all others would answer, it is the same. -/
theorem Program.validateBy_eq {ask : Scope → Answers} {p : Program} (h : Honest ask p.visited) :
    p.validateBy ask = p.validate := by
  refine Run.bind_eq_of_ok fun s hs => ?_
  have hbody : Honest ask (s.visitedStmts p.body) := h.tail.right.next hs
  rw [Scope.checkStmtsBy_eq (fun st _ => (Scope.asksVisited_cases ask).all_stmts st) hbody]

end Gradual
