import Mathlib
import Gradual.Proofs.Check.Unwrap

/-!
# Parentheses are neutral

Taking off parentheses changes neither the type of an expression nor what its check finds, at any scope (`unwraps_cases`), so a
program is accepted or rejected as before (`parentheses_neutral`). That is so because a pair is seen through wherever an
expression is typed or checked, and only an argument is asked whether it is a name. There the pair matters: taking it off a
generic function that is passed can make an accepted program fail (`bare_name_rejected`).
-/

namespace Gradual

namespace Scope

/-! ## What taking off parentheses keeps -/

/-- Two expressions have one type and one verdict. -/
structure SameExpr (s : Scope) (e e' : Expr) : Prop where
  type : s.typeOf e' = s.typeOf e
  verdict : (s.checkExpr e').verdict = (s.checkExpr e).verdict

/-- Two blocks have one type, one verdict and one place. -/
structure SameBlock (s : Scope) (b b' : Block) : Prop where
  type : s.blockType b' = s.blockType b
  verdict : (s.checkBlock b').verdict = (s.checkBlock b).verdict
  span : b'.span = b.span

/-- Two statements bind the same, and have one type and one verdict. -/
structure SameStmt (s : Scope) (st st' : Stmt) : Prop where
  declare : s.declare st' = s.declare st
  type : s.bodyType [st'] = s.bodyType [st]
  verdict : (s.checkStmt st').verdict = (s.checkStmt st).verdict

/-- Whatever an expression unwraps to has its type and its verdict. -/
def UnchangedExpr (e : Expr) : Prop := ∀ s e', Unwraps s e e' → SameExpr s e e'

def UnchangedBlock (b : Block) : Prop := ∀ s b', UnwrapsBlock s b b' → SameBlock s b b'

def UnchangedStmt (st : Stmt) : Prop := ∀ s st', UnwrapsStmt s st st' → SameStmt s st st'

-- The equations of the walk are made here, once: the proofs below all ask for them.
attribute [local simp] checkExpr checkExprs checkEntries checkBindings checkBranches checkBlock? checkBlock checkStmts
  checkMethods checkImplementations checkStmt

variable {s : Scope}

/-! ### Calls -/

/-- An argument that may become another has the type of the other: only a name passes a signature, and a name unwraps to nothing
but itself. -/
theorem argType_of_unwraps {d : Declaration} {i : Nat} {e e' : Expr} (h : Unwraps s e e')
    (hmay : s.MayBecome (some (.typed d)) i e e') (ht : s.typeOf e' = s.typeOf e) :
    s.argType d i e' (s.typeOf e') = s.argType d i e (s.typeOf e) := by
  by_cases hp : s.passedSignature? d i e' = none
  · have hpe : s.passedSignature? d i e = none := by
      cases h with
      | name s n span => exact hp
      | _ => rfl
    rw [argType, argType, hp, hpe, ht]
  · rw [hmay d rfl hp]

/-- Taking off parentheses leaves the types of arguments as they were. -/
theorem argTypes_of_unwraps {d : Declaration} {i : Nat} {es es' : List Expr} (ih : ∀ e ∈ es, UnchangedExpr e)
    (h : UnwrapsArgs s (some (.typed d)) i es es') : s.argTypes d i es' = s.argTypes d i es := by
  induction es generalizing i es' with
  | nil =>
    cases h with
    | nil => rfl
  | cons e es ihs =>
    cases h with
    | cons h hmay hs =>
      obtain ⟨ihe, ihes⟩ := List.forall_mem_cons.1 ih
      rw [argTypes, argTypes, argType_of_unwraps h hmay (ihe s _ h).type, ihs ihes hs]

/-- Taking off parentheses leaves the verdict on expressions as it was. -/
theorem checkExprs_of_unwraps {c : Option Callee} {i : Nat} {es es' : List Expr} (ih : ∀ e ∈ es, UnchangedExpr e)
    (h : UnwrapsArgs s c i es es') : (s.checkExprs es').verdict = (s.checkExprs es).verdict := by
  induction es generalizing i es' with
  | nil =>
    cases h with
    | nil => rfl
  | cons e es ihs =>
    cases h with
    | cons h _ hs =>
      obtain ⟨ihe, ihes⟩ := List.forall_mem_cons.1 ih
      simp only [checkExprs, Run.verdict_bind, (ihe s _ h).verdict, ihs ihes hs]

/-- A call has the type and the verdict that it has with other arguments which its own unwrap to. -/
theorem sameExpr_call {f : String} {args args' : List Expr} {span : Span} (ih : ∀ e ∈ args, UnchangedExpr e)
    (h : UnwrapsArgs s (s.callee? f) 0 args args') : SameExpr s (.call f args span) (.call f args' span) := by
  have hexprs := checkExprs_of_unwraps ih h
  constructor
  · cases hc : s.callee? f with
    | none => simp only [typeOf, hc]
    | some c =>
      cases c with
      | untyped => simp only [typeOf, hc]
      | typed d =>
        rw [hc] at h
        simp only [typeOf, hc, argTypes_of_unwraps ih h]
  · simp only [checkExpr, Run.verdict_bind, Run.verdict_ofExcept, hexprs]
    refine bind_eq_of_ok fun c hc => bind_eq_of_ok fun _ _ => ?_
    cases c with
    | untyped => rfl
    | typed d =>
      have hd : s.callee? f = some (.typed d) := by
        rw [expectCallee] at hc
        split at hc
        · rename_i c' hc'
          rw [hc', Except.ok.inj hc]
        · cases hc
      rw [hd] at h
      simp only [checkArguments, argTypes_of_unwraps ih h]

/-! ### Lists of parts -/

/-- Taking off parentheses leaves the verdict on the entries of a map as it was. -/
theorem checkEntries_of_unwraps {es es' : List Entry} (ih : ∀ e ∈ es, UnchangedExpr e.key ∧ UnchangedExpr e.value)
    (h : UnwrapsEntries s es es') : (s.checkEntries es').verdict = (s.checkEntries es).verdict := by
  induction es generalizing es' with
  | nil =>
    cases h with
    | nil => rfl
  | cons e es ihs =>
    cases h with
    | cons hk hv hs =>
      obtain ⟨⟨ihk, ihv⟩, ihes⟩ := List.forall_mem_cons.1 ih
      simp only [checkEntries, Run.verdict_bind, (ihk s _ hk).verdict, (ihv s _ hv).verdict, ihs ihes hs]

/-- Taking off parentheses leaves what bindings bind as it was. -/
theorem bindAll_of_unwraps {bs bs' : List Binding} (ih : ∀ b ∈ bs, UnchangedExpr b.value) (h : UnwrapsBindings s bs bs') :
    s.bindAll bs' = s.bindAll bs := by
  induction bs generalizing s bs' with
  | nil =>
    cases h with
    | nil => rfl
  | cons b bs ihs =>
    cases h with
    | cons h hs =>
      obtain ⟨ihb, ihbs⟩ := List.forall_mem_cons.1 ih
      rw [bindAll, bindAll, (ihb s _ h).type]
      refine bind_eq_of_ok fun t ht => ihs ihbs ?_
      rw [ht] at hs
      exact hs

/-- Taking off parentheses leaves the verdict on bindings as it was. -/
theorem checkBindings_of_unwraps {bs bs' : List Binding} (ih : ∀ b ∈ bs, UnchangedExpr b.value) (h : UnwrapsBindings s bs bs') :
    (s.checkBindings bs').verdict = (s.checkBindings bs).verdict := by
  induction bs generalizing s bs' with
  | nil =>
    cases h with
    | nil => rfl
  | cons b bs ihs =>
    cases h with
    | cons h hs =>
      obtain ⟨ihb, ihbs⟩ := List.forall_mem_cons.1 ih
      simp only [checkBindings, Run.verdict_bind, Run.verdict_ofExcept, (ihb s _ h).type, (ihb s _ h).verdict]
      refine bind_eq_of_ok fun _ _ => bind_eq_of_ok fun _ _ => bind_eq_of_ok fun t ht => ihs ihbs ?_
      rw [ht] at hs
      exact hs

/-- The branches of a conditional are typed at its own scope and checked one level further in. -/
theorem branchTypes_of_unwraps {bs bs' : List Branch} (ih : ∀ b ∈ bs, UnchangedExpr b.condition ∧ UnchangedBlock b.body)
    (h : UnwrapsBranches s.child bs bs') : s.branchTypes bs' = s.branchTypes bs := by
  induction bs generalizing bs' with
  | nil =>
    cases h with
    | nil => rfl
  | cons b bs ihs =>
    cases h with
    | cons hc hb hs =>
      obtain ⟨⟨-, ihb⟩, ihbs⟩ := List.forall_mem_cons.1 ih
      obtain ⟨htype, -, hspan⟩ := ihb s.child _ hb
      rw [blockType_child, blockType_child] at htype
      simp only [branchTypes, htype, hspan, ihs ihbs hs]

/-- Taking off parentheses leaves the verdict on branches as it was. -/
theorem checkBranches_of_unwraps {bs bs' : List Branch} (ih : ∀ b ∈ bs, UnchangedExpr b.condition ∧ UnchangedBlock b.body)
    (h : UnwrapsBranches s bs bs') : (s.checkBranches bs').verdict = (s.checkBranches bs).verdict := by
  induction bs generalizing bs' with
  | nil =>
    cases h with
    | nil => rfl
  | cons b bs ihs =>
    cases h with
    | cons hc hb hs =>
      obtain ⟨⟨ihc, ihb⟩, ihbs⟩ := List.forall_mem_cons.1 ih
      simp only [checkBranches, Run.verdict_bind, (ihc s _ hc).verdict, (ihb s _ hb).verdict, ihs ihbs hs]

/-- Taking off parentheses leaves the type of a body as it was. -/
theorem bodyType_of_unwraps {stmts stmts' : List Stmt} (ih : ∀ st ∈ stmts, UnchangedStmt st) (h : UnwrapsStmts s stmts stmts') :
    s.bodyType stmts' = s.bodyType stmts := by
  induction stmts generalizing s stmts' with
  | nil =>
    cases h with
    | nil => rfl
  | cons st stmts ihs =>
    cases h with
    | cons h hs =>
      obtain ⟨ihst, ihstmts⟩ := List.forall_mem_cons.1 ih
      cases hs with
      | nil => exact (ihst s _ h).type
      | cons h' hs' =>
        rw [bodyType_cons_cons, bodyType_cons_cons, (ihst s _ h).declare]
        refine bind_eq_of_ok fun t ht => ihs ihstmts ?_
        rw [ht] at h' hs'
        exact .cons h' hs'

/-- Taking off parentheses leaves the verdict on statements as it was. -/
theorem checkStmts_of_unwraps {stmts stmts' : List Stmt} (ih : ∀ st ∈ stmts, UnchangedStmt st) (h : UnwrapsStmts s stmts stmts') :
    (s.checkStmts stmts').verdict = (s.checkStmts stmts).verdict := by
  induction stmts generalizing s stmts' with
  | nil =>
    cases h with
    | nil => rfl
  | cons st stmts ihs =>
    cases h with
    | cons h hs =>
      obtain ⟨ihst, ihstmts⟩ := List.forall_mem_cons.1 ih
      simp only [checkStmts, Run.verdict_bind, (ihst s _ h).verdict]
      refine bind_eq_of_ok fun t ht => ihs ihstmts ?_
      rw [declare_of_checkStmt ht] at hs
      exact hs

/-! ### Records -/

/-- Taking off parentheses leaves what methods declare as it was. -/
theorem declareMethods_of_unwraps {receiver : Ty} {fields : List Param} {ms ms' : List Method}
    (h : UnwrapsMethods s receiver fields ms ms') (r : Scope) : r.declareMethods receiver ms' = r.declareMethods receiver ms := by
  induction ms generalizing s r ms' with
  | nil =>
    cases h with
    | nil => rfl
  | cons m ms ihs =>
    cases h with
    | cons _ hs =>
      rw [declareMethods, declareMethods]
      exact bind_eq_of_ok fun d _ => ihs hs _

/-- Taking off parentheses leaves what implementations declare as it was. -/
theorem declareImplementations_of_unwraps {receiver : Ty} {fields : List Param} {is is' : List Implementation}
    (h : UnwrapsImplementations s receiver fields is is') (r : Scope) :
    r.declareImplementations receiver is' = r.declareImplementations receiver is := by
  induction is generalizing s r is' with
  | nil =>
    cases h with
    | nil => rfl
  | cons i is ihs =>
    cases h with
    | cons h hs =>
      rw [declareImplementations, declareImplementations, declareMethods_of_unwraps h]
      exact bind_eq_of_ok fun t _ => ihs hs _

/-- Taking off parentheses leaves the verdict on methods as it was. -/
theorem checkMethods_of_unwraps {receiver : Ty} {fields : List Param} {ms ms' : List Method}
    (ih : ∀ m ∈ ms, UnchangedBlock m.body) (h : UnwrapsMethods s receiver fields ms ms') :
    (s.checkMethods receiver fields ms').verdict = (s.checkMethods receiver fields ms).verdict := by
  induction ms generalizing s ms' with
  | nil =>
    cases h with
    | nil => rfl
  | cons m ms ihs =>
    cases h with
    | @cons _ _ _ name params ret body body' span ms ms' h hs =>
      obtain ⟨ihm, ihms⟩ := List.forall_mem_cons.1 ih
      simp only [checkMethods, Run.verdict_bind, Run.verdict_ofExcept, Run.verdict_log, ok_bind]
      refine bind_eq_of_ok fun _ _ => bind_eq_of_ok fun d hd => bind_eq_of_ok fun around ha => bind_eq_of_ok fun inner hi => ?_
      have hafter : s.afterMethod receiver name params ret = s.addFunction name d := by
        rw [afterMethod, hd]
        rfl
      have hbody : s.methodBody receiver fields name params ret = inner := by
        rw [methodBody, hafter, ha, ok_bind, hi, after_ok]
      rw [hbody] at h
      rw [hafter] at hs
      rw [(ihm inner _ h).verdict, ihs ihms hs]

/-- Taking off parentheses leaves the verdict on implementations as it was. -/
theorem checkImplementations_of_unwraps {n : String} {fields : List Param} {is is' : List Implementation}
    (ih : ∀ i ∈ is, ∀ m ∈ i.methods, UnchangedBlock m.body) (h : UnwrapsImplementations s (.simple n) fields is is') :
    (s.checkImplementations n fields is').verdict = (s.checkImplementations n fields is).verdict := by
  induction is generalizing s is' with
  | nil =>
    cases h with
    | nil => rfl
  | cons i is ihs =>
    cases h with
    | cons h hs =>
      obtain ⟨ihi, ihis⟩ := List.forall_mem_cons.1 ih
      simp only [checkImplementations, Run.verdict_bind, Run.verdict_log, ok_bind, checkMethods_of_unwraps ihi h]
      refine bind_eq_of_ok fun t ht => ihs ihis ?_
      rw [declareMethods_of_checkMethods ht] at hs
      exact hs

/-! ### Every construct -/

/-- Each construct has the type and the verdict that it has with other parts which its own unwrap to. -/
theorem unwraps_cases : TreeCases UnchangedExpr UnchangedBlock UnchangedStmt where
  literal v span s e' h := by
    cases h with
    | literal => exact ⟨rfl, rfl⟩
  name n span s e' h := by
    cases h with
    | name => exact ⟨rfl, rfl⟩
  binary op l r span ihl ihr s e' h := by
    cases h with
    | binary hl hr =>
      refine ⟨rfl, ?_⟩
      simp only [checkExpr, Run.verdict_bind, (ihl s _ hl).verdict, (ihr s _ hr).verdict]
  unary op e span ih s e' h := by
    cases h with
    | unary h => exact ⟨rfl, by simp only [checkExpr, (ih s _ h).verdict]⟩
  call f args span ih s e' h := by
    cases h with
    | call h => exact sameExpr_call ih h
  methodCall threading receiver m args span ihr ih s e' h := by
    cases h with
    | methodCall h =>
      have ihs : ∀ e ∈ threading.arrange receiver args, UnchangedExpr e := by
        intro e he
        rcases (threading.mem_arrange).1 he with rfl | he
        · exact ihr
        · exact ih e he
      have hsame : SameExpr s (.call m (threading.arrange receiver args) span) _ := sameExpr_call ihs h
      obtain ⟨htype, hverdict⟩ := hsame
      constructor
      · rw [typeOf_methodCall, typeOf_methodCall, htype]
      · rw [verdict_checkExpr_methodCall, verdict_checkExpr_methodCall, hverdict]
  member target field span ih s e' h := by
    cases h with
    | member h =>
      obtain ⟨htype, hverdict⟩ := ih s _ h
      constructor
      · simp only [typeOf, htype]
      · simp only [checkExpr, Run.verdict_bind, Run.verdict_ofExcept, htype, hverdict]
  get collection key span ihc ihk s e' h := by
    cases h with
    | get hc hk =>
      obtain ⟨htype, hverdict⟩ := ihc s _ hc
      constructor
      · simp only [typeOf, htype]
      · simp only [checkExpr, Run.verdict_bind, hverdict, (ihk s _ hk).verdict]
  vector items span ih s e' h := by
    cases h with
    | vector h => exact ⟨rfl, by simp only [checkExpr, checkExprs_of_unwraps ih h]⟩
  map entries span ih s e' h := by
    cases h with
    | map h => exact ⟨rfl, by simp only [checkExpr, checkEntries_of_unwraps ih h]⟩
  block b ih s e' h := by
    cases h with
    | block h =>
      obtain ⟨htype, hverdict, -⟩ := ih s _ h
      exact ⟨by simp only [typeOf, htype], by simp only [checkExpr, hverdict]⟩
  letIn bindings body span ih ihb s e' h := by
    cases h with
    | letIn hb h =>
      constructor
      · simp only [typeOf, bindAll_of_unwraps ih hb]
        refine bind_eq_of_ok fun inner hi => (ihb inner _ ?_).type
        rw [hi] at h
        exact h
      · simp only [checkExpr, Run.verdict_bind, checkBindings_of_unwraps ih hb]
        refine bind_eq_of_ok fun inner hi => (ihb inner _ ?_).verdict
        rw [bindAll_of_checkBindings hi] at h
        exact h
  forEach vars iterable body span ih ihb s e' h := by
    cases h with
    | @forEach _ _ _ iterable' _ body' _ hi h =>
      obtain ⟨htype, hverdict⟩ := ih s _ hi
      have hloop : s.loopVarType vars iterable' = s.loopVarType vars iterable := by simp only [loopVarType, htype]
      refine ⟨rfl, ?_⟩
      simp only [checkExpr, Run.verdict_bind, Run.verdict_ofExcept, hverdict, hloop]
      refine bind_eq_of_ok fun _ _ => bind_eq_of_ok fun t ht => bind_eq_of_ok fun inner hinner => (ihb inner _ ?_).verdict
      rw [loopBody, ht, ok_bind, hinner] at h
      exact h
  cond branches otherwise span ih iho s e' h := by
    cases h with
    | cond h => exact ⟨rfl, by simp only [checkExpr, Run.verdict_bind, checkBranches_of_unwraps ih h]⟩
    | condElse h hb =>
      obtain ⟨htype, hverdict, hspan⟩ := iho _ rfl s.child _ hb
      rw [blockType_child, blockType_child] at htype
      constructor
      · simp only [typeOf, branchTypes_of_unwraps ih h, htype, hspan]
      · simp only [checkExpr, checkBlock?, Run.verdict_bind, checkBranches_of_unwraps ih h, hverdict]
  lambda params body span ih s e' h := by
    cases h with
    | lambda h =>
      -- Where both the typing and the check bind the parameters, they bind them alike; either may fail where the other does not.
      constructor
      · simp only [typeOf]
        refine bind_eq_of_ok fun o ho => ?_
        cases o with
        | none => rfl
        | some p =>
          obtain ⟨ts, inner⟩ := p
          rw [lambdaBody_of_lambdaScope ho] at h
          simp only [(ih inner _ h).type]
      · simp only [checkExpr, Run.verdict_bind, Run.verdict_ofExcept]
        refine bind_eq_of_ok fun inner hi => ?_
        rw [lambdaBody_of_declareLambdaParams hi] at h
        exact (ih inner _ h).verdict
  paren e span ih s e' h := by
    cases h with
    | paren h =>
      obtain ⟨htype, hverdict⟩ := ih s _ h
      exact ⟨by simp only [typeOf, htype], by simp only [checkExpr, hverdict]⟩
    | takeOff h =>
      obtain ⟨htype, hverdict⟩ := ih s _ h
      exact ⟨by simp only [typeOf, htype], by simp only [checkExpr, hverdict]⟩
  stmts stmts span ih s b' h := by
    cases h with
    | stmts h =>
      refine ⟨?_, ?_, rfl⟩
      · simp only [blockType, bodyType_of_unwraps ih h]
      · simp only [checkBlock, Run.verdict_bind, checkStmts_of_unwraps ih h]
  function n generics params ret body span ih s st' h := by
    cases h with
    | function h =>
      refine ⟨rfl, rfl, ?_⟩
      simp only [checkStmt, Run.verdict_bind, Run.verdict_ofExcept, Run.verdict_log, ok_bind]
      refine bind_eq_of_ok fun _ _ => bind_eq_of_ok fun d hd => bind_eq_of_ok fun inner hi => ?_
      rw [functionBody, hd, ok_bind, hi] at h
      rw [(ih inner _ h).verdict]
  record n fields is span ih s st' h := by
    cases h with
    | record h =>
      refine ⟨?_, rfl, ?_⟩
      · simp only [declare, declareRecord, declareImplementations_of_unwraps h]
      · simp only [checkStmt, Run.verdict_bind, Run.verdict_ofExcept, Run.verdict_log, ok_bind]
        refine bind_eq_of_ok fun _ _ => bind_eq_of_ok fun _ _ => bind_eq_of_ok fun layout hl => ?_
        rw [recordBody, hl] at h
        exact checkImplementations_of_unwraps ih h
  define n ty value span ih s st' h := by
    cases h with
    | define h =>
      obtain ⟨htype, hverdict⟩ := ih s _ h
      refine ⟨?_, rfl, ?_⟩
      · cases ty with
        | none => simp only [declare, htype]
        | some a => rfl
      · simp only [checkStmt, Run.verdict_bind, Run.verdict_ofExcept, htype, hverdict]
  expr e ih s st' h := by
    cases h with
    | expr h =>
      obtain ⟨htype, hverdict⟩ := ih s _ h
      refine ⟨rfl, by simp only [bodyType, htype], ?_⟩
      simp only [checkStmt, Run.verdict_bind, hverdict]

end Scope

/-! ## Programs -/

namespace Program

/-- Parentheses are neutral. Taking off any of them, at any depth, changes neither the verdict on a program nor, at any scope, the
type of an expression, as long as it lays bare no name of a generic function where its signature is passed. -/
theorem parentheses_neutral :
    (∀ p p' : Program, p.Unwraps p' → p'.validate.verdict = p.validate.verdict) ∧
      ∀ (s : Scope) (e e' : Expr), s.Unwraps e e' → s.typeOf e' = s.typeOf e := by
  refine ⟨fun p p' h => ?_, fun s e e' h => (Scope.unwraps_cases.all_exprs e s e' h).type⟩
  obtain ⟨himports, hbody, -⟩ := h
  simp only [validate, Run.verdict_bind, Run.verdict_log, himports]
  refine bind_eq_of_ok fun s hs => ?_
  rw [hs, Scope.after_ok] at hbody
  rw [Scope.checkStmts_of_unwraps (fun st _ => Scope.unwraps_cases.all_stmts st) hbody]

/-- `defn <T, U> ap(x: T, g: (T) -> U) -> U { g(x) } defn <A> id(a: A) -> A { a } def n: String = ap(nil, (id));` with other
arguments in the last call. -/
def applyProgram (args : List Expr) : Program :=
  ⟨[], [.function "ap" ["T", "U"]
      [⟨"x", .named "T" [] ⟨18, 19⟩, ⟨15, 19⟩⟩,
        ⟨"g", .function [.named "T" [] ⟨25, 26⟩] (.named "U" [] ⟨31, 32⟩) ⟨24, 32⟩, ⟨21, 32⟩⟩]
      (some (.named "U" [] ⟨37, 38⟩)) ⟨[.expr (.call "g" [.name "x" ⟨43, 44⟩] ⟨41, 45⟩)], ⟨39, 47⟩⟩ ⟨0, 47⟩,
    .function "id" ["A"] [⟨"a", .named "A" [] ⟨63, 64⟩, ⟨60, 64⟩⟩] (some (.named "A" [] ⟨69, 70⟩))
      ⟨[.expr (.name "a" ⟨73, 74⟩)], ⟨71, 76⟩⟩ ⟨48, 76⟩,
    .define "n" (some (.named "String" [] ⟨84, 90⟩)) (.call "ap" args ⟨93, 106⟩) ⟨77, 107⟩], ⟨0, 107⟩⟩

/-- The parentheses around `nil`, and one of two pairs around `id`, may be taken off. -/
theorem applyProgram_unwraps :
    (applyProgram [.paren (.literal .nil ⟨96, 99⟩) ⟨95, 100⟩,
      .paren (.paren (.name "id" ⟨102, 104⟩) ⟨101, 105⟩) ⟨100, 106⟩]).Unwraps
        (applyProgram [.literal .nil ⟨96, 99⟩, .paren (.name "id" ⟨102, 104⟩) ⟨101, 105⟩]) ∧
      (applyProgram [.literal .nil ⟨96, 99⟩, .paren (.name "id" ⟨102, 104⟩) ⟨101, 105⟩]).validate.verdict =
        (applyProgram [.paren (.literal .nil ⟨96, 99⟩) ⟨95, 100⟩,
          .paren (.paren (.name "id" ⟨102, 104⟩) ⟨101, 105⟩) ⟨100, 106⟩]).validate.verdict ∧
      Scope.prelude.typeOf (.name "range" ⟨1, 6⟩) = Scope.prelude.typeOf (.paren (.name "range" ⟨1, 6⟩) ⟨0, 7⟩) := by
  have hunwraps : (applyProgram [.paren (.literal .nil ⟨96, 99⟩) ⟨95, 100⟩,
      .paren (.paren (.name "id" ⟨102, 104⟩) ⟨101, 105⟩) ⟨100, 106⟩]).Unwraps
      (applyProgram [.literal .nil ⟨96, 99⟩, .paren (.name "id" ⟨102, 104⟩) ⟨101, 105⟩]) := by
    refine ⟨rfl, .cons (.function (.stmts (.cons (.expr (.call ?_)) (.nil _)))) (.cons (.function (.stmts ?_))
      (.cons (.define (.call ?_)) (.nil _))), rfl⟩
    · exact .cons (.name _ _ _) (fun _ _ _ => rfl) (.nil _ _ _)
    · exact .cons (.expr (.name _ _ _)) (.nil _)
    · exact .cons (.takeOff (.literal _ _ _)) (fun _ _ h => absurd rfl h)
        (.cons (.takeOff (.paren (.name _ _ _))) (fun _ _ h => absurd rfl h) (.nil _ _ _))
  exact ⟨hunwraps, parentheses_neutral.1 _ _ hunwraps, parentheses_neutral.2 _ _ _ (.takeOff (.name _ _ _))⟩

/-- The scope of the definition. -/
def applyScope : Scope :=
  (Scope.prelude.child.addFunction "ap" (some ⟨"ap", some [.declared "T" "ap", .declared "U" "ap"], ["x", "g"],
    [.parameter (.declared "T" "ap"), .function [.parameter (.declared "T" "ap")] (.parameter (.declared "U" "ap"))],
    .parameter (.declared "U" "ap")⟩)).addFunction "id" (some ⟨"id", some [.declared "A" "id"], ["a"],
    [.parameter (.declared "A" "id")], .parameter (.declared "A" "id")⟩)

/-- The parentheses around a generic function that is passed matter. The program defines a text by `ap(nil, (id))`, which has no
known type, and is accepted; without the parentheses the identity passes its signature, the call has the type of `nil`, and the
program is rejected. -/
theorem bare_name_rejected :
    (applyProgram [.literal .nil ⟨96, 99⟩, .paren (.name "id" ⟨102, 104⟩) ⟨101, 105⟩]).validate.verdict = .ok () ∧
      (applyProgram [.literal .nil ⟨96, 99⟩, .name "id" ⟨102, 104⟩]).validate.verdict =
        .error ((Cause.variableType "n" .string .nil).at ⟨77, 107⟩) ∧
      applyScope.typeOf (.call "ap" [.literal .nil ⟨96, 99⟩, .paren (.name "id" ⟨102, 104⟩) ⟨101, 105⟩] ⟨93, 106⟩) = .ok none ∧
      applyScope.typeOf (.call "ap" [.literal .nil ⟨96, 99⟩, .name "id" ⟨102, 104⟩] ⟨93, 106⟩) = .ok (some .nil) := by
  refine ⟨?_, ?_, ?_, ?_⟩ <;> cbv

end Program

end Gradual
