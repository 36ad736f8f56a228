import Gradual.Check.Typing
import Gradual.Proofs.Scope.Lookup
import Gradual.Proofs.Tree.Induction
import Gradual.Proofs.Types.Erasure

/-!
# What the type of an expression depends on

A method call is typed as the call of the method with the receiver among the arguments (`typeOf_methodCall`). The type of an
expression is the same in scopes that answer alike (`alike_cases`), as is what a statement binds.
-/

namespace Gradual

/-- The common type of branches is that of the first, and the others are compatible with it. -/
theorem commonBranchType_cons_iff {expected : Ty} {span : Span} {others : List (Ty × Span)} {t : Option Ty} :
    commonBranchType ((expected, span) :: others) = .ok t ↔
      some expected = t ∧ ∀ m ∈ others, m.1.eraseOwners = expected.eraseOwners := by
  rw [commonBranchType]
  split
  · rename_i actual span' hsome
    have hbad : ¬actual.eraseOwners = expected.eraseOwners := by
      simpa [← Ty.isCompatibleWith_iff] using List.find?_some hsome
    simp only [reduceCtorEq, false_iff, not_and, not_forall]
    exact fun _ => ⟨(actual, span'), List.mem_of_find?_eq_some hsome, hbad⟩
  · rename_i hnone
    have hfit : ∀ m ∈ others, m.1.eraseOwners = expected.eraseOwners := by
      simpa [← Ty.isCompatibleWith_iff] using hnone
    simp only [Except.ok.injEq, iff_self_and]
    exact fun _ => hfit

namespace Scope

/-! ## Equations -/

/-- The types of arguments of which one is the last. -/
theorem argTypes_concat (s : Scope) (d : Declaration) (i : Nat) (es : List Expr) (e : Expr) :
    s.argTypes d i (es ++ [e]) = s.argTypes d i es >>= fun ts =>
      s.argType d (i + es.length) e (s.typeOf e) >>= fun t => pure (ts ++ [t]) := by
  induction es generalizing i with
  | nil => simp [argTypes]; rfl
  | cons e' es ih =>
    have hi : i + 1 + es.length = i + (e' :: es).length := by simp; omega
    simp [argTypes, ih, hi]

/-- A method call has the type of the call of the method with the receiver among the arguments. -/
theorem typeOf_methodCall (s : Scope) (threading : Threading) (receiver : Expr) (m : String) (args : List Expr) (span : Span) :
    s.typeOf (.methodCall threading receiver m args span) = s.typeOf (.call m (threading.arrange receiver args) span) := by
  cases threading with
  | first => simp only [typeOf, Threading.arrange, argTypes, Nat.zero_add, bind_assoc, pure_bind]
  | last => simp only [typeOf, Threading.arrange, argTypes_concat, Nat.zero_add, bind_assoc, pure_bind]

/-- The type of statements of which there are more than one. -/
theorem bodyType_cons_cons (s : Scope) (st st' : Stmt) (stmts : List Stmt) :
    s.bodyType (st :: st' :: stmts) = s.declare st >>= fun s => s.bodyType (st' :: stmts) := by
  cases st <;> rfl

/-! ## Scopes that answer alike -/

namespace Alike

variable {s t : Scope}

/-- A name has one type in alike scopes. -/
theorem nameType (h : Alike s t) (n : String) (span : Span) : s.nameType n span = t.nameType n span := by
  simp only [Scope.nameType, h.value?]

/-- A member has one type in alike scopes. -/
theorem memberType (h : Alike s t) (ty : Option Ty) (field : String) (span : Span) :
    s.memberType ty field span = t.memberType ty field span := by
  have : s.record? = t.record? := funext h.record?
  simp only [Scope.memberType, this]

/-- An argument has one type in alike scopes. -/
theorem argType (h : Alike s t) (d : Declaration) (i : Nat) (e : Expr) (own : Outcome (Option Ty)) :
    s.argType d i e own = t.argType d i e own := by
  have : s.passedSignature? d i e = t.passedSignature? d i e := by
    cases e with
    | name n span => simp only [passedSignature?, h.value?]
    | _ => rfl
  rw [Scope.argType, Scope.argType, this]

/-- Arguments have the same types in alike scopes when each of them has. -/
theorem argTypes (h : Alike s t) (d : Declaration) (i : Nat) {es : List Expr}
    (hes : ∀ e ∈ es, s.typeOf e = t.typeOf e) : s.argTypes d i es = t.argTypes d i es := by
  induction es generalizing i with
  | nil => rfl
  | cons e es ih =>
    rw [List.forall_mem_cons] at hes
    simp only [Scope.argTypes, hes.1, h.argType, ih (i + 1) hes.2]

/-- Methods declare the same in alike scopes. -/
theorem declareMethods (h : Alike s t) (receiver : Ty) (ms : List Method) :
    Related Alike (s.declareMethods receiver ms) (t.declareMethods receiver ms) := by
  induction ms generalizing s t with
  | nil => exact .ok h
  | cons m ms ih =>
    obtain ⟨n, params, ret, body, span⟩ := m
    simp only [Scope.declareMethods, methodDeclaration_congr h.type?]
    exact Related.bind_left _ fun d => ih (h.addFunction n d)

/-- Implementations declare the same in alike scopes. -/
theorem declareImplementations (h : Alike s t) (receiver : Ty) (is : List Implementation) :
    Related Alike (s.declareImplementations receiver is) (t.declareImplementations receiver is) := by
  induction is generalizing s t with
  | nil => exact .ok h
  | cons i is ih =>
    obtain ⟨protocol, methods, span⟩ := i
    exact (h.declareMethods receiver methods).bind fun _ _ h => ih h

/-- A function declares the same in alike scopes. -/
theorem declareFunction (h : Alike s t) (n : String) (generics : List String) (params : List Param) (ret : Option Annotation) :
    Related Alike (s.declareFunction n generics params ret) (t.declareFunction n generics params ret) := by
  simp only [Scope.declareFunction, functionDeclaration_congr (h.withGenerics n generics).type?]
  exact Related.bind_left _ fun d => .ok (h.addFunction n d)

/-- A record declares the same in alike scopes. -/
theorem declareRecord (h : Alike s t) (n : String) (fields : List Param) (is : List Implementation) :
    Related Alike (s.declareRecord n fields is) (t.declareRecord n fields is) := by
  have hs := h.addType n (.simple n)
  simp only [Scope.declareRecord, recordLayout_congr hs.type?]
  exact Related.bind_left _ fun layout => ((hs.addFunction n _).addRecord layout).declareImplementations _ is

/-- The types of a lambda's parameters are the same, and the scopes that bind them are alike. -/
theorem lambdaScope (h : Alike s t) {inner inner' : Scope} (hi : Alike inner inner') (ps : List LambdaParam) :
    Related (Option.Rel fun x y => x.1 = y.1 ∧ Alike x.2 y.2) (s.lambdaScope inner ps) (t.lambdaScope inner' ps) := by
  induction ps generalizing inner inner' with
  | nil => exact .ok (.some ⟨rfl, hi⟩)
  | cons p ps ih =>
    cases hp : p.ty with
    | none => simp only [Scope.lambdaScope, hp]; exact .ok .none
    | some a =>
      simp only [Scope.lambdaScope, hp, resolve_congr h.type?]
      refine Related.bind_left _ fun ty => (ih (hi.addParameter p.name ty)).bind ?_
      rintro _ _ (⟨h₁, h₂⟩ | _)
      · exact .ok (.some ⟨by rw [h₁], h₂⟩)
      · exact .ok .none

/-- Bindings bind the same in alike scopes when their values have the same types. -/
theorem bindAll (h : Alike s t) {bs : List Binding}
    (hbs : ∀ b ∈ bs, ∀ s t, Alike s t → s.typeOf b.value = t.typeOf b.value) : Related Alike (s.bindAll bs) (t.bindAll bs) := by
  induction bs generalizing s t with
  | nil => exact .ok h
  | cons b bs ih =>
    obtain ⟨n, value, span⟩ := b
    rw [List.forall_mem_cons] at hbs
    simp only [Scope.bindAll, hbs.1 s t h]
    exact Related.bind_left _ fun ty => ih (h.addVariable n ty) hbs.2

/-- A body has one type in alike scopes when its statements declare the same. -/
theorem bodyType (h : Alike s t) {stmts : List Stmt}
    (hs : ∀ st ∈ stmts, ∀ s t, Alike s t → Related Alike (s.declare st) (t.declare st) ∧ s.bodyType [st] = t.bodyType [st]) :
    s.bodyType stmts = t.bodyType stmts := by
  induction stmts generalizing s t with
  | nil => rfl
  | cons st stmts ih =>
    rw [List.forall_mem_cons] at hs
    cases stmts with
    | nil => exact (hs.1 s t h).2
    | cons st' stmts =>
      rw [bodyType_cons_cons, bodyType_cons_cons]
      exact (hs.1 s t h).1.bind_eq fun _ _ h => ih h hs.2

end Alike

/-- Branches have the same types where their bodies have. -/
theorem branchTypes_eq {s t : Scope} {bs : List Branch} (h : ∀ b ∈ bs, s.blockType b.body = t.blockType b.body) :
    s.branchTypes bs = t.branchTypes bs := by
  induction bs with
  | nil => rfl
  | cons b bs ih =>
    obtain ⟨condition, body⟩ := b
    rw [List.forall_mem_cons] at h
    simp only [branchTypes, h.1, ih h.2]

/-- Each construct asks for the same things in scopes that answer alike. -/
theorem alike_cases : TreeCases (fun e => ∀ s t, Alike s t → s.typeOf e = t.typeOf e)
    (fun b => ∀ s t, Alike s t → s.blockType b = t.blockType b)
    (fun st => ∀ s t, Alike s t → Related Alike (s.declare st) (t.declare st) ∧ s.bodyType [st] = t.bodyType [st]) where
  literal v span s t h := rfl
  name n span s t h := h.nameType n span
  binary op l r span _ _ s t h := rfl
  unary op e span _ s t h := rfl
  call f args span ih s t h := by
    simp only [typeOf, h.callee?, h.argTypes _ _ fun e he => ih e he s t h]
  methodCall threading receiver m args span ihr ih s t h := by
    have hargs : ∀ e ∈ threading.arrange receiver args, s.typeOf e = t.typeOf e := by
      intro e he
      have : e = receiver ∨ e ∈ args := by cases threading <;> simpa [Threading.arrange, or_comm] using he
      rcases this with rfl | he
      · exact ihr s t h
      · exact ih e he s t h
    rw [typeOf_methodCall, typeOf_methodCall]
    simp only [typeOf, h.callee?, h.argTypes _ _ hargs]
  member target field span ih s t h := by
    simp only [typeOf, ih s t h, h.memberType]
  get collection key span ih _ s t h := by
    simp only [typeOf, ih s t h]
  vector items span _ s t h := rfl
  map entries span _ s t h := rfl
  block b ih s t h := ih s t h
  letIn bindings body span ih ihb s t h := by
    exact (h.child.bindAll ih).bind_eq ihb
  forEach vars iterable body span _ _ s t h := rfl
  cond branches otherwise span ih iho s t h := by
    cases otherwise with
    | none => rfl
    | some b => simp only [typeOf, branchTypes_eq fun b hb => (ih b hb).2 s t h, iho b rfl s t h]
  lambda params body span ih s t h := by
    refine (h.lambdaScope h.child params).bind_eq ?_
    rintro _ _ (@⟨⟨ts, inner⟩, ⟨_, inner'⟩, rfl, hi⟩ | _)
    · simp only [ih inner inner' hi]
    · rfl
  paren e span ih s t h := ih s t h
  stmts stmts span ih s t h := h.child.bodyType ih
  function n generics params ret body span _ s t h := ⟨h.declareFunction n generics params ret, rfl⟩
  record n fields implementations span _ s t h := ⟨h.declareRecord n fields implementations, rfl⟩
  define n ty value span ih s t h := by
    refine ⟨?_, rfl⟩
    cases ty with
    | none =>
      simp only [declare, ih s t h]
      exact Related.bind_left _ fun ty => .ok (h.addVariable n ty)
    | some a =>
      simp only [declare, resolve_congr h.type?]
      exact Related.bind_left _ fun ty => .ok (h.addVariable n _)
  expr e ih s t h := ⟨.ok h, ih s t h⟩

/-- Statements have one type in scopes that answer alike. -/
theorem bodyType_congr {s t : Scope} (h : Alike s t) (stmts : List Stmt) : s.bodyType stmts = t.bodyType stmts :=
  h.bodyType fun st _ => alike_cases.all_stmts st

/-- A block has the same type one level further in. -/
theorem blockType_child (s : Scope) (b : Block) : s.child.blockType b = s.blockType b := by
  obtain ⟨stmts, span⟩ := b
  exact bodyType_congr (alike_child_child s) stmts

end Scope

end Gradual
