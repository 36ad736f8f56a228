import Mathlib
import Gradual.Proofs.Check.Closed
import Gradual.Proofs.Check.Validity

/-!
# The scopes that a check works in

`Scope.visited` lists the scopes that the check of an expression works in: its own, and those that are made for its parts. Parts
are listed beside each other, whether or not the check gets to them, but a scope is listed only where the bindings that make it
succeed. `Scope.Step` says all that is ever done to a scope: a level is opened, or something is bound. Every scope of a check
comes about by such steps (`steps_of_visited`), so what each step keeps holds in all of them, whatever the program is.
-/

namespace Gradual

namespace Scope

/-! ## Scopes visited -/

/-- The scopes in which parameters are bound one after the other. -/
def paramScopes (s : Scope) : List Param → List Scope
  | [] => [s]
  | p :: ps => s :: following (s.ensureNewVariable p.name p.span) fun _ =>
      following (s.resolve p.ty) fun t => paramScopes (s.addParameter p.name t) ps

/-- The scopes in which the parameters of a lambda are bound one after the other. -/
def lambdaParamScopes (s : Scope) : List LambdaParam → List Scope
  | [] => [s]
  | p :: ps => s :: following (s.ensureNewVariable p.name p.span) fun _ =>
      match p.ty with
      | some a => following (s.resolve a) fun t => lambdaParamScopes (s.addParameter p.name t) ps
      | none => lambdaParamScopes (s.addVariable p.name none) ps

/-- The scopes in which the variables of a loop are bound one after the other, all with one type. -/
def loopVarScopes (s : Scope) (ty : Option Ty) : List LocalName → List Scope
  | [] => [s]
  | v :: vs => s :: following (s.ensureNewVariable v.name v.span) fun _ => loopVarScopes (s.addVariable v.name ty) ty vs

mutual

/-- The scopes that the check of an expression works in. -/
def visited (s : Scope) : Expr → List Scope
  | .literal _ _ => [s]
  | .name _ _ => [s]
  | .binary _ l r _ => s :: (visited s l ++ visited s r)
  | .unary _ e _ => s :: visited s e
  | .call _ args _ => s :: visitedAll s args
  | .methodCall _ receiver _ args _ => s :: (visited s receiver ++ visitedAll s args)
  | .member target _ _ => s :: visited s target
  | .get collection key _ => s :: (visited s collection ++ visited s key)
  | .vector items _ => s :: visitedAll s items
  | .map entries _ => s :: visitedEntries s entries
  | .block b => s :: visitedBlock s b
  | .letIn bindings body _ =>
    s :: (visitedBindings s.child bindings ++
      following (s.child.checkBindings bindings).verdict fun inner => visitedBlock inner body)
  | .forEach vars iterable body _ =>
    s :: (visited s iterable ++ following (s.loopVarType vars iterable) fun t =>
      loopVarScopes s.child t vars ++ following (s.child.declareLoopVars t vars) fun inner => visitedBlock inner body)
  | .cond branches otherwise _ => s :: (visitedBranches s.child branches ++ visitedBlock? s.child otherwise)
  | .lambda params body _ =>
    s :: (lambdaParamScopes s.child params ++ following (s.child.declareLambdaParams params) fun inner => visited inner body)
  | .paren e _ => s :: visited s e

/-- The scopes that the check of expressions works in. -/
def visitedAll (s : Scope) : List Expr → List Scope
  | [] => []
  | e :: es => visited s e ++ visitedAll s es

/-- The scopes that the check of the entries of a map works in. -/
def visitedEntries (s : Scope) : List Entry → List Scope
  | [] => []
  | ⟨key, value⟩ :: es => visited s key ++ (visited s value ++ visitedEntries s es)

/-- The scopes that the check of the bindings of a let works in. -/
def visitedBindings (s : Scope) : List Binding → List Scope
  | [] => [s]
  | ⟨name, value, span⟩ :: bs => s :: following (s.ensureNewVariable name span) fun _ =>
      visited s value ++ following (s.typeOf value) fun t => visitedBindings (s.addVariable name t) bs

/-- The scopes that the check of the branches of a conditional works in. -/
def visitedBranches (s : Scope) : List Branch → List Scope
  | [] => []
  | ⟨condition, body⟩ :: bs => visited s condition ++ (visitedBlock s body ++ visitedBranches s bs)

/-- The scopes that the check of a block that may be missing works in. -/
def visitedBlock? (s : Scope) : Option Block → List Scope
  | none => []
  | some b => visitedBlock s b

/-- The scopes that the check of a block works in. -/
def visitedBlock (s : Scope) : Block → List Scope
  | ⟨stmts, _⟩ => visitedStmts s.child stmts

/-- The scopes that the check of statements works in, with the one that the last of them leaves. -/
def visitedStmts (s : Scope) : List Stmt → List Scope
  | [] => [s]
  | st :: stmts => visitedStmt s st ++ following (s.checkStmt st).verdict fun r => visitedStmts r stmts

/-- The scopes that the check of the methods of a record works in. -/
def visitedMethods (s : Scope) (record : String) (fields : List Param) : List Method → List Scope
  | [] => [s]
  | ⟨name, params, ret, body, span⟩ :: ms => s :: following (s.ensureNewFunction name span) fun _ =>
      following (s.methodDeclaration (.simple record) name params ret) fun d =>
        paramScopes (s.addFunction name d).child fields ++
          ((following ((s.addFunction name d).child.declareParams fields) fun around =>
            paramScopes (around.child.addVariable "self" (some (.simple record))) params ++
              following ((around.child.addVariable "self" (some (.simple record))).declareParams params) fun inner =>
                visitedBlock inner body) ++
            visitedMethods (s.addFunction name d) record fields ms)

/-- The scopes that the check of the implementations of a record works in. -/
def visitedImplementations (s : Scope) (record : String) (fields : List Param) : List Implementation → List Scope
  | [] => [s]
  | ⟨_, methods, _⟩ :: is => visitedMethods s record fields methods ++
      following (s.checkMethods (.simple record) fields methods).verdict fun r => visitedImplementations r record fields is

/-- The scopes that the check of a statement works in. -/
def visitedStmt (s : Scope) : Stmt → List Scope
  | .function name generics params ret body span => s :: following (s.ensureNewFunction name span) fun _ =>
      s.withGenerics name generics ::
        following ((s.withGenerics name generics).functionDeclaration name generics params ret) fun d =>
          paramScopes ((s.addFunction name d).withGenerics name generics).child params ++
            following (((s.addFunction name d).withGenerics name generics).child.declareParams params) fun inner =>
              visitedBlock inner body
  | .record name fields implementations span => s :: following (s.ensureNewRecord name span) fun _ =>
      following (ensureDistinctFields fields span) fun _ => s.addType name (.simple name) ::
        following ((s.addType name (.simple name)).recordLayout name fields) fun layout =>
          visitedImplementations (((s.addType name (.simple name)).addFunction name (some layout.constructor)).addRecord layout)
            name fields implementations
  | .define _ _ value _ => s :: visited s value
  | .expr e => visited s e

end

/-- The scopes in which imports are bound one after the other. -/
def importScopes (s : Scope) : List Import → List Scope
  | [] => [s]
  | i :: is => s ::
    match i.binding? with
    | none => []
    | some name => importScopes (s.addType name (.simple name)) is

end Scope

/-- The scopes that the check of a program works in. -/
def Program.visited (p : Program) : List Scope :=
  Scope.prelude :: (Scope.prelude.child.importScopes p.imports ++
    following (Scope.prelude.child.declareImports p.imports).verdict fun s => s.visitedStmts p.body)

namespace Scope

/-! ## Steps -/

/-- What a check does to a scope in one step. -/
inductive Step : Scope → Scope → Prop
  | child (s : Scope) : Step s s.child
  | generics (s : Scope) (owner : String) (generics : List String) : Step s (s.withGenerics owner generics)
  | type (s : Scope) (n : String) : Step s (s.addType n (.simple n))
  | function {s : Scope} {n : String} {span : Span} {generics : List String} {params : List Param} {ret : Option Annotation}
      {d : Option Declaration} (hnew : s.ensureNewFunction n span = .ok ())
      (hd : (s.withGenerics n generics).functionDeclaration n generics params ret = .ok d) : Step s (s.addFunction n d)
  | method {s : Scope} {n : String} {span : Span} {record : String} {params : List Param} {ret : Option Annotation}
      {d : Option Declaration} (hnew : s.ensureNewFunction n span = .ok ())
      (hd : s.methodDeclaration (.simple record) n params ret = .ok d) : Step s (s.addFunction n d)
  | record {s : Scope} {n : String} {span : Span} {fields : List Param} {layout : RecordLayout}
      (hnew : s.ensureNewRecord n span = .ok ()) (hl : (s.addType n (.simple n)).recordLayout n fields = .ok layout) :
      Step s (((s.addType n (.simple n)).addFunction n (some layout.constructor)).addRecord layout)
  | receiver (s : Scope) (record : String) : Step s (s.child.addVariable "self" (some (.simple record)))
  | parameter {s : Scope} {n : String} {span : Span} {a : Annotation} {t : Ty} (hnew : s.ensureNewVariable n span = .ok ())
      (ht : s.resolve a = .ok t) : Step s (s.addParameter n t)
  | annotated {s : Scope} {n : String} {span : Span} {a : Annotation} {t : Ty} (hnew : s.ensureNewVariable n span = .ok ())
      (ht : s.resolve a = .ok t) : Step s (s.addVariable n (some t))
  | value {s : Scope} {n : String} {span : Span} {e : Expr} {t : Option Ty} (hnew : s.ensureNewVariable n span = .ok ())
      (ht : s.typeOf e = .ok t) : Step s (s.addVariable n t)
  | untyped {s : Scope} {n : String} {span : Span} (hnew : s.ensureNewVariable n span = .ok ()) : Step s (s.addVariable n none)
  | element {s : Scope} {n : String} {vars : List LocalName} {iterable : Expr} {t : Option Ty}
      (ht : s.loopVarType vars iterable = .ok t) : Step s (s.child.addVariable n t)

/-- What a check does to a scope in any number of steps. -/
abbrev Steps : Scope → Scope → Prop := Relation.ReflTransGen Step

variable {s r : Scope}

/-- One step is a run of steps. -/
theorem Step.steps (h : Step s r) : Steps s r := .single h

/-- What one step keeps, any number of steps keep. -/
theorem Steps.keeps {I : Scope → Prop} (hstep : ∀ s r, Step s r → I s → I r) (h : Steps s r) (hs : I s) : I r := by
  induction h with
  | refl => exact hs
  | tail _ hr ih => exact hstep _ _ hr ih

/-! ### Lists of names -/

/-- The scopes of parameters come about by steps. -/
theorem steps_of_paramScopes {ps : List Param} (h : r ∈ s.paramScopes ps) : Steps s r := by
  induction ps generalizing s with
  | nil =>
    rw [paramScopes, List.mem_singleton] at h
    exact h ▸ .refl
  | cons p ps ih =>
    rw [paramScopes, List.mem_cons] at h
    rcases h with rfl | h
    · exact .refl
    · obtain ⟨⟨⟩, hnew, h⟩ := mem_following_iff.1 h
      obtain ⟨t, ht, h⟩ := mem_following_iff.1 h
      exact (Step.parameter hnew ht).steps.trans (ih h)

/-- The scope that binds all parameters is one of those in which they are bound. -/
theorem mem_paramScopes {ps : List Param} (h : s.declareParams ps = .ok r) : r ∈ s.paramScopes ps := by
  induction ps generalizing s with
  | nil => exact List.mem_singleton.2 (Except.ok.inj h).symm
  | cons p ps ih =>
    rw [declareParams, seq_eq_ok_iff] at h
    obtain ⟨hnew, h⟩ := h
    obtain ⟨t, ht, h⟩ := bind_eq_ok_iff.1 h
    refine List.mem_cons_of_mem _ (mem_following_iff.2 ⟨(), hnew, ?_⟩)
    exact mem_following_iff.2 ⟨t, ht, ih h⟩

/-- The scopes of a lambda's parameters come about by steps. -/
theorem steps_of_lambdaParamScopes {ps : List LambdaParam} (h : r ∈ s.lambdaParamScopes ps) : Steps s r := by
  induction ps generalizing s with
  | nil =>
    rw [lambdaParamScopes, List.mem_singleton] at h
    exact h ▸ .refl
  | cons p ps ih =>
    rw [lambdaParamScopes, List.mem_cons] at h
    rcases h with rfl | h
    · exact .refl
    · obtain ⟨⟨⟩, hnew, h⟩ := mem_following_iff.1 h
      cases hp : p.ty with
      | none =>
        rw [hp] at h
        exact (Step.untyped hnew).steps.trans (ih h)
      | some a =>
        rw [hp] at h
        obtain ⟨t, ht, h⟩ := mem_following_iff.1 h
        exact (Step.parameter hnew ht).steps.trans (ih h)

/-- The scope that a lambda's parameters leave is listed. -/
theorem mem_lambdaParamScopes {ps : List LambdaParam} (h : s.declareLambdaParams ps = .ok r) : r ∈ s.lambdaParamScopes ps := by
  induction ps generalizing s with
  | nil => exact List.mem_singleton.2 (Except.ok.inj h).symm
  | cons p ps ih =>
    rw [declareLambdaParams, seq_eq_ok_iff] at h
    obtain ⟨hnew, h⟩ := h
    refine List.mem_cons_of_mem _ (mem_following_iff.2 ⟨(), hnew, ?_⟩)
    cases hp : p.ty with
    | none =>
      rw [hp] at h
      exact ih h
    | some a =>
      rw [hp] at h
      obtain ⟨t, ht, h⟩ := bind_eq_ok_iff.1 h
      exact mem_following_iff.2 ⟨t, ht, ih h⟩

/-- The scope that loop variables leave is listed. -/
theorem mem_loopVarScopes {ty : Option Ty} {vs : List LocalName} (h : s.declareLoopVars ty vs = .ok r) :
    r ∈ s.loopVarScopes ty vs := by
  induction vs generalizing s with
  | nil => exact List.mem_singleton.2 (Except.ok.inj h).symm
  | cons v vs ih =>
    rw [declareLoopVars, seq_eq_ok_iff] at h
    exact List.mem_cons_of_mem _ (mem_following_iff.2 ⟨(), h.1, ih h.2⟩)

/-- The scopes of loop variables without a type come about by steps. -/
theorem steps_of_untyped_loopVarScopes {vs : List LocalName} (h : r ∈ s.loopVarScopes none vs) : Steps s r := by
  induction vs generalizing s with
  | nil =>
    rw [loopVarScopes, List.mem_singleton] at h
    exact h ▸ .refl
  | cons v vs ih =>
    rw [loopVarScopes, List.mem_cons] at h
    rcases h with rfl | h
    · exact .refl
    · obtain ⟨⟨⟩, hnew, h⟩ := mem_following_iff.1 h
      exact (Step.untyped hnew).steps.trans (ih h)

/-- A loop binds one variable with the type of the elements, or several without a type. -/
theorem steps_of_loopVarScopes {vars : List LocalName} {iterable : Expr} {t : Option Ty}
    (ht : s.loopVarType vars iterable = .ok t) (h : r ∈ s.child.loopVarScopes t vars) : Steps s r := by
  have hchild : Steps s s.child := (Step.child s).steps
  match vars with
  | [v] =>
    rw [loopVarScopes, List.mem_cons] at h
    rcases h with rfl | h
    · exact hchild
    · obtain ⟨⟨⟩, -, h⟩ := mem_following_iff.1 h
      rw [loopVarScopes, List.mem_singleton] at h
      exact h ▸ (Step.element ht).steps
  | [] =>
    obtain rfl := Except.ok.inj ht
    exact hchild.trans (steps_of_untyped_loopVarScopes h)
  | _ :: _ :: _ =>
    obtain rfl := Except.ok.inj ht
    exact hchild.trans (steps_of_untyped_loopVarScopes h)

/-- The scopes of imports come about by steps. -/
theorem steps_of_importScopes {is : List Import} (h : r ∈ s.importScopes is) : Steps s r := by
  induction is generalizing s with
  | nil =>
    rw [importScopes, List.mem_singleton] at h
    exact h ▸ .refl
  | cons i is ih =>
    rw [importScopes, List.mem_cons] at h
    rcases h with rfl | h
    · exact .refl
    · cases hi : i.binding? with
      | none =>
        rw [hi] at h
        cases h
      | some n =>
        rw [hi] at h
        exact (Step.type s n).steps.trans (ih h)

/-- The scope that imports leave is listed. -/
theorem mem_importScopes {is : List Import} (h : (s.declareImports is).verdict = .ok r) : r ∈ s.importScopes is := by
  induction is generalizing s with
  | nil => exact List.mem_singleton.2 (Except.ok.inj h).symm
  | cons i is ih =>
    refine List.mem_cons_of_mem _ ?_
    rw [declareImports] at h
    cases hi : i.binding? with
    | none =>
      rw [hi] at h
      cases h
    | some n =>
      rw [hi, Run.verdict_bind, Run.verdict_log] at h
      exact ih h

/-! ### Statements -/

/-- What bindings leave comes about by steps. -/
theorem steps_of_checkBindings {bs : List Binding} (h : (s.checkBindings bs).verdict = .ok r) : Steps s r := by
  induction bs generalizing s with
  | nil =>
    rw [checkBindings] at h
    exact Except.ok.inj h ▸ .refl
  | cons b bs ih =>
    obtain ⟨n, value, span⟩ := b
    obtain ⟨hnew, -, t, ht, h⟩ := checkBindings_cons_iff.1 h
    exact (Step.value hnew ht).steps.trans (ih h)

/-- What methods leave comes about by steps. -/
theorem steps_of_checkMethods {record : String} {fields : List Param} {ms : List Method}
    (h : (s.checkMethods (.simple record) fields ms).verdict = .ok r) : Steps s r := by
  induction ms generalizing s with
  | nil =>
    rw [checkMethods] at h
    exact Except.ok.inj h ▸ .refl
  | cons m ms ih =>
    obtain ⟨n, params, ret, body, span⟩ := m
    obtain ⟨hnew, d, hd, around, -, inner, -, -, h⟩ := checkMethods_cons_iff.1 h
    exact (Step.method hnew hd).steps.trans (ih h)

/-- What implementations leave comes about by steps. -/
theorem steps_of_checkImplementations {record : String} {fields : List Param} {is : List Implementation}
    (h : (s.checkImplementations record fields is).verdict = .ok r) : Steps s r := by
  induction is generalizing s with
  | nil =>
    rw [checkImplementations] at h
    exact Except.ok.inj h ▸ .refl
  | cons i is ih =>
    obtain ⟨protocol, methods, span⟩ := i
    obtain ⟨s₁, hs₁, h⟩ := checkImplementations_cons_iff.1 h
    exact (steps_of_checkMethods hs₁).trans (ih h)

/-- The scope that a statement leaves comes about by steps. -/
theorem steps_of_checkStmt {st : Stmt} (h : (s.checkStmt st).verdict = .ok r) : Steps s r := by
  cases st with
  | expr e =>
    obtain ⟨-, rfl⟩ := checkStmt_expr_iff.1 h
    exact .refl
  | define n ty value span =>
    obtain ⟨hnew, -, actual, ha, t, ht, rfl⟩ := checkStmt_define_iff.1 h
    cases ty with
    | none =>
      obtain rfl := Except.ok.inj ht
      exact (Step.value hnew ha).steps
    | some a =>
      obtain ⟨expected, he, -, rfl⟩ := variableType_annotated_iff.1 ht
      exact (Step.annotated hnew he).steps
  | function n generics params ret body span =>
    obtain ⟨hnew, d, hd, inner, -, -, rfl⟩ := checkStmt_function_iff.1 h
    exact (Step.function hnew hd).steps
  | record n fields is span =>
    obtain ⟨hnew, -, layout, hl, h⟩ := checkStmt_record_iff.1 h
    exact (Step.record hnew hl).steps.trans (steps_of_checkImplementations h)

/-! ### All that is visited -/

/-- The scopes of expressions come about by steps. -/
theorem steps_of_visitedAll {es : List Expr} (ih : ∀ e ∈ es, ∀ s r : Scope, r ∈ s.visited e → Steps s r)
    (h : r ∈ s.visitedAll es) : Steps s r := by
  induction es with
  | nil => cases h
  | cons e es ihes =>
    rw [List.forall_mem_cons] at ih
    rw [visitedAll, List.mem_append] at h
    rcases h with h | h
    · exact ih.1 s r h
    · exact ihes ih.2 h

/-- The scopes of a map's entries come about by steps. -/
theorem steps_of_visitedEntries {es : List Entry} (ih : ∀ e ∈ es, (∀ s r : Scope, r ∈ s.visited e.key → Steps s r) ∧
    ∀ s r : Scope, r ∈ s.visited e.value → Steps s r) (h : r ∈ s.visitedEntries es) : Steps s r := by
  induction es with
  | nil => cases h
  | cons e es ihes =>
    obtain ⟨key, value⟩ := e
    rw [List.forall_mem_cons] at ih
    rw [visitedEntries, List.mem_append, List.mem_append] at h
    rcases h with h | h | h
    · exact ih.1.1 s r h
    · exact ih.1.2 s r h
    · exact ihes ih.2 h

/-- The scopes of bindings come about by steps. -/
theorem steps_of_visitedBindings {bs : List Binding} (ih : ∀ b ∈ bs, ∀ s r : Scope, r ∈ s.visited b.value → Steps s r)
    (h : r ∈ s.visitedBindings bs) : Steps s r := by
  induction bs generalizing s with
  | nil =>
    rw [visitedBindings, List.mem_singleton] at h
    exact h ▸ .refl
  | cons b bs ihbs =>
    obtain ⟨n, value, span⟩ := b
    rw [List.forall_mem_cons] at ih
    rw [visitedBindings, List.mem_cons] at h
    rcases h with rfl | h
    · exact .refl
    · obtain ⟨⟨⟩, hnew, h⟩ := mem_following_iff.1 h
      rcases List.mem_append.1 h with h | h
      · exact ih.1 s r h
      · obtain ⟨t, ht, h⟩ := mem_following_iff.1 h
        exact (Step.value hnew ht).steps.trans (ihbs ih.2 h)

/-- The scopes of branches come about by steps. -/
theorem steps_of_visitedBranches {bs : List Branch} (ih : ∀ b ∈ bs, (∀ s r : Scope, r ∈ s.visited b.condition → Steps s r) ∧
    ∀ s r : Scope, r ∈ s.visitedBlock b.body → Steps s r) (h : r ∈ s.visitedBranches bs) : Steps s r := by
  induction bs with
  | nil => cases h
  | cons b bs ihbs =>
    obtain ⟨condition, body⟩ := b
    rw [List.forall_mem_cons] at ih
    rw [visitedBranches, List.mem_append, List.mem_append] at h
    rcases h with h | h | h
    · exact ih.1.1 s r h
    · exact ih.1.2 s r h
    · exact ihbs ih.2 h

/-- The scopes of statements come about by steps. -/
theorem steps_of_visitedStmts {stmts : List Stmt} (ih : ∀ st ∈ stmts, ∀ s r : Scope, r ∈ s.visitedStmt st → Steps s r)
    (h : r ∈ s.visitedStmts stmts) : Steps s r := by
  induction stmts generalizing s with
  | nil =>
    rw [visitedStmts, List.mem_singleton] at h
    exact h ▸ .refl
  | cons st stmts ihs =>
    rw [List.forall_mem_cons] at ih
    rw [visitedStmts, List.mem_append] at h
    rcases h with h | h
    · exact ih.1 s r h
    · obtain ⟨s₁, hs₁, h⟩ := mem_following_iff.1 h
      exact (steps_of_checkStmt hs₁).trans (ihs ih.2 h)

/-- The scopes of methods come about by steps. -/
theorem steps_of_visitedMethods {record : String} {fields : List Param} {ms : List Method}
    (ih : ∀ m ∈ ms, ∀ s r : Scope, r ∈ s.visitedBlock m.body → Steps s r) (h : r ∈ s.visitedMethods record fields ms) :
    Steps s r := by
  induction ms generalizing s with
  | nil =>
    rw [visitedMethods, List.mem_singleton] at h
    exact h ▸ .refl
  | cons m ms ihms =>
    obtain ⟨n, params, ret, body, span⟩ := m
    rw [List.forall_mem_cons] at ih
    rw [visitedMethods, List.mem_cons] at h
    rcases h with rfl | h
    · exact .refl
    obtain ⟨⟨⟩, hnew, h⟩ := mem_following_iff.1 h
    obtain ⟨d, hd, h⟩ := mem_following_iff.1 h
    have hbound : Steps s (s.addFunction n d) := (Step.method hnew hd).steps
    have hfields : Steps s (s.addFunction n d).child := hbound.tail (.child _)
    rw [List.mem_append, List.mem_append] at h
    rcases h with h | h | h
    · exact hfields.trans (steps_of_paramScopes h)
    · obtain ⟨around, haround, h⟩ := mem_following_iff.1 h
      have hself : Steps s (around.child.addVariable "self" (some (.simple record))) :=
        (hfields.trans (steps_of_paramScopes (mem_paramScopes haround))).tail (.receiver _ record)
      rcases List.mem_append.1 h with h | h
      · exact hself.trans (steps_of_paramScopes h)
      · obtain ⟨inner, hinner, h⟩ := mem_following_iff.1 h
        exact (hself.trans (steps_of_paramScopes (mem_paramScopes hinner))).trans (ih.1 inner r h)
    · exact hbound.trans (ihms ih.2 h)

/-- The scopes of implementations come about by steps. -/
theorem steps_of_visitedImplementations {record : String} {fields : List Param} {is : List Implementation}
    (ih : ∀ i ∈ is, ∀ m ∈ i.methods, ∀ s r : Scope, r ∈ s.visitedBlock m.body → Steps s r)
    (h : r ∈ s.visitedImplementations record fields is) : Steps s r := by
  induction is generalizing s with
  | nil =>
    rw [visitedImplementations, List.mem_singleton] at h
    exact h ▸ .refl
  | cons i is ihis =>
    obtain ⟨protocol, methods, span⟩ := i
    rw [List.forall_mem_cons] at ih
    rw [visitedImplementations, List.mem_append] at h
    rcases h with h | h
    · exact steps_of_visitedMethods ih.1 h
    · obtain ⟨s₁, hs₁, h⟩ := mem_following_iff.1 h
      exact (steps_of_checkMethods hs₁).trans (ihis ih.2 h)

/-- The scopes that each construct is checked in come about by steps from its own, when those of its parts do. -/
theorem visited_cases : TreeCases (fun e => ∀ s r : Scope, r ∈ s.visited e → Steps s r)
    (fun b => ∀ s r : Scope, r ∈ s.visitedBlock b → Steps s r) (fun st => ∀ s r : Scope, r ∈ s.visitedStmt st → Steps s r) where
  literal v span s r h := by
    rw [visited, List.mem_singleton] at h
    exact h ▸ .refl
  name n span s r h := by
    rw [visited, List.mem_singleton] at h
    exact h ▸ .refl
  binary op l r span ihl ihr s r' h := by
    rw [visited, List.mem_cons, List.mem_append] at h
    rcases h with rfl | h | h
    · exact .refl
    · exact ihl s r' h
    · exact ihr s r' h
  unary op e span ih s r h := by
    rw [visited, List.mem_cons] at h
    rcases h with rfl | h
    · exact .refl
    · exact ih s r h
  call f args span ih s r h := by
    rw [visited, List.mem_cons] at h
    rcases h with rfl | h
    · exact .refl
    · exact steps_of_visitedAll ih h
  methodCall threading receiver m args span ihr ih s r h := by
    rw [visited, List.mem_cons, List.mem_append] at h
    rcases h with rfl | h | h
    · exact .refl
    · exact ihr s r h
    · exact steps_of_visitedAll ih h
  member target field span ih s r h := by
    rw [visited, List.mem_cons] at h
    rcases h with rfl | h
    · exact .refl
    · exact ih s r h
  get collection key span ihc ihk s r h := by
    rw [visited, List.mem_cons, List.mem_append] at h
    rcases h with rfl | h | h
    · exact .refl
    · exact ihc s r h
    · exact ihk s r h
  vector items span ih s r h := by
    rw [visited, List.mem_cons] at h
    rcases h with rfl | h
    · exact .refl
    · exact steps_of_visitedAll ih h
  map entries span ih s r h := by
    rw [visited, List.mem_cons] at h
    rcases h with rfl | h
    · exact .refl
    · exact steps_of_visitedEntries ih h
  block b ih s r h := by
    rw [visited, List.mem_cons] at h
    rcases h with rfl | h
    · exact .refl
    · exact ih s r h
  letIn bindings body span ih ihb s r h := by
    rw [visited, List.mem_cons, List.mem_append] at h
    have hchild : Steps s s.child := (Step.child s).steps
    rcases h with rfl | h | h
    · exact .refl
    · exact hchild.trans (steps_of_visitedBindings ih h)
    · obtain ⟨inner, hinner, h⟩ := mem_following_iff.1 h
      exact (hchild.trans (steps_of_checkBindings hinner)).trans (ihb inner r h)
  forEach vars iterable body span ih ihb s r h := by
    rw [visited, List.mem_cons, List.mem_append] at h
    rcases h with rfl | h | h
    · exact .refl
    · exact ih s r h
    · obtain ⟨t, ht, h⟩ := mem_following_iff.1 h
      rcases List.mem_append.1 h with h | h
      · exact steps_of_loopVarScopes ht h
      · obtain ⟨inner, hinner, h⟩ := mem_following_iff.1 h
        exact (steps_of_loopVarScopes ht (mem_loopVarScopes hinner)).trans (ihb inner r h)
  cond branches otherwise span ih iho s r h := by
    rw [visited, List.mem_cons, List.mem_append] at h
    have hchild : Steps s s.child := (Step.child s).steps
    rcases h with rfl | h | h
    · exact .refl
    · exact hchild.trans (steps_of_visitedBranches ih h)
    · cases otherwise with
      | none =>
        rw [visitedBlock?] at h
        cases h
      | some b =>
        rw [visitedBlock?] at h
        exact hchild.trans (iho b rfl s.child r h)
  lambda params body span ih s r h := by
    rw [visited, List.mem_cons, List.mem_append] at h
    have hchild : Steps s s.child := (Step.child s).steps
    rcases h with rfl | h | h
    · exact .refl
    · exact hchild.trans (steps_of_lambdaParamScopes h)
    · obtain ⟨inner, hinner, h⟩ := mem_following_iff.1 h
      exact (hchild.trans (steps_of_lambdaParamScopes (mem_lambdaParamScopes hinner))).trans (ih inner r h)
  paren e span ih s r h := by
    rw [visited, List.mem_cons] at h
    rcases h with rfl | h
    · exact .refl
    · exact ih s r h
  stmts stmts span ih s r h := by
    rw [visitedBlock] at h
    exact (Step.child s).steps.trans (steps_of_visitedStmts ih h)
  function n generics params ret body span ih s r h := by
    rw [visitedStmt, List.mem_cons] at h
    rcases h with rfl | h
    · exact .refl
    obtain ⟨⟨⟩, hnew, h⟩ := mem_following_iff.1 h
    rcases List.mem_cons.1 h with rfl | h
    · exact (Step.generics s n generics).steps
    obtain ⟨d, hd, h⟩ := mem_following_iff.1 h
    have hparams : Steps s ((s.addFunction n d).withGenerics n generics).child :=
      ((Step.function hnew hd).steps.tail (.generics _ n generics)).tail (.child _)
    rcases List.mem_append.1 h with h | h
    · exact hparams.trans (steps_of_paramScopes h)
    · obtain ⟨inner, hinner, h⟩ := mem_following_iff.1 h
      exact (hparams.trans (steps_of_paramScopes (mem_paramScopes hinner))).trans (ih inner r h)
  record n fields implementations span ih s r h := by
    rw [visitedStmt, List.mem_cons] at h
    rcases h with rfl | h
    · exact .refl
    obtain ⟨⟨⟩, hnew, h⟩ := mem_following_iff.1 h
    obtain ⟨⟨⟩, -, h⟩ := mem_following_iff.1 h
    rcases List.mem_cons.1 h with rfl | h
    · exact (Step.type s n).steps
    obtain ⟨layout, hl, h⟩ := mem_following_iff.1 h
    exact (Step.record hnew hl).steps.trans (steps_of_visitedImplementations ih h)
  define n ty value span ih s r h := by
    rw [visitedStmt, List.mem_cons] at h
    rcases h with rfl | h
    · exact .refl
    · exact ih s r h
  expr e ih s r h := by
    rw [visitedStmt] at h
    exact ih s r h

end Scope

/-- The scopes that the check of a program works in come about by steps from the prelude. -/
theorem Program.steps_of_visited {p : Program} {r : Scope} (h : r ∈ p.visited) : Scope.Steps Scope.prelude r := by
  rw [Program.visited, List.mem_cons, List.mem_append] at h
  have hchild : Scope.Steps Scope.prelude Scope.prelude.child := (Scope.Step.child _).steps
  rcases h with rfl | h | h
  · exact .refl
  · exact hchild.trans (Scope.steps_of_importScopes h)
  · obtain ⟨s, hs, h⟩ := mem_following_iff.1 h
    have himports := hchild.trans (Scope.steps_of_importScopes (Scope.mem_importScopes hs))
    exact himports.trans (Scope.steps_of_visitedStmts (fun st _ => Scope.visited_cases.all_stmts st) h)

/-! ## Unknowns never leave a call -/

namespace Scope

/-- A step binds nothing that mentions an unknown. -/
theorem Step.closed {s r : Scope} (h : Step s r) (hs : s.Closed) : r.Closed := by
  cases h with
  | child => exact hs.child
  | generics owner generics => exact hs.withGenerics owner generics
  | type n => exact hs.addType n rfl
  | function hnew hd => exact hs.addFunction _ fun e he => closed_functionDeclaration (hs.withGenerics _ _) hd he
  | method hnew hd => exact hs.addFunction _ fun e he => closed_methodDeclaration hs rfl hd he
  | record hnew hl => exact hs.bindRecord hl
  | receiver record => exact hs.child.addVariable "self" fun t ht => Option.some.inj ht ▸ rfl
  | parameter hnew ht => exact hs.addParameter _ (isOpen_resolve hs _ ht)
  | annotated hnew ht => exact hs.addVariable _ fun u hu => Option.some.inj hu ▸ isOpen_resolve hs _ ht
  | value hnew ht =>
    refine hs.addVariable _ fun u hu => ?_
    subst hu
    exact isOpen_typeOf hs ht
  | untyped hnew => exact hs.addVariable _ fun u hu => nomatch hu
  | element ht =>
    refine hs.child.addVariable _ fun u hu => ?_
    subst hu
    exact isOpen_loopVarType hs ht

/-- The unknowns of a call never leave it. In a closed scope, what expressions and blocks are known to be is closed, and what
statements, lets and lambdas bind leaves it closed, be they typed or checked; so every scope is closed in which a part of an
expression is checked, and every scope in which a part of a program is. -/
theorem closed_throughout :
    (∀ s : Scope, s.Closed →
      (∀ e t, s.typeOf e = .ok (some t) → t.isOpen = false) ∧ (∀ b t, s.blockType b = .ok (some t) → t.isOpen = false) ∧
      (∀ st r, s.declare st = .ok r → r.Closed) ∧ (∀ bs r, s.child.bindAll bs = .ok r → r.Closed) ∧
      (∀ ps ts r, s.lambdaScope s.child ps = .ok (some (ts, r)) → r.Closed) ∧
      (∀ st r, (s.checkStmt st).verdict = .ok r → r.Closed) ∧ ∀ e, ∀ r ∈ s.visited e, r.Closed) ∧
    ∀ p : Program, ∀ r ∈ p.visited, r.Closed := by
  have hkeeps : ∀ s r : Scope, Steps s r → s.Closed → r.Closed := fun s r h => h.keeps fun s r hstep => hstep.closed
  refine ⟨fun s hs => ⟨?_, ?_, ?_, ?_, ?_, ?_, ?_⟩, ?_⟩
  · exact fun e t ht => isOpen_typeOf hs ht
  · exact fun b t ht => closed_cases.all_blocks b s hs t ht
  · exact fun st r hr => hs.declare hr
  · exact fun bs r hr => hs.child.bindAll (fun b _ s hs t ht => isOpen_typeOf hs ht) hr
  · exact fun ps ts r hr => (hs.lambdaScope hs.child hr).2
  · exact fun st r hr => hkeeps s r (steps_of_checkStmt hr) hs
  · exact fun e r hr => hkeeps s r (visited_cases.all_exprs e s r hr) hs
  · exact fun p r hr => hkeeps _ r (Program.steps_of_visited hr) closed_prelude

/-- `<T, U> apply(f: (T) -> U, x: T) -> U`. -/
def applySignature : Declaration :=
  ⟨"apply", some [.declared "T" "apply", .declared "U" "apply"], ["f", "x"],
    [.function [.parameter (.declared "T" "apply")] (.parameter (.declared "U" "apply")), .parameter (.declared "T" "apply")],
    .parameter (.declared "U" "apply")⟩

/-- `<T> same(x: T) -> T`. -/
def sameSignature : Declaration :=
  ⟨"same", some [.declared "T" "same"], ["x"], [.parameter (.declared "T" "same")], .parameter (.declared "T" "same")⟩

/-- A scope of `apply` and `same`. -/
def applyScope : Scope := (empty.addFunction "apply" (some applySignature)).addFunction "same" (some sameSignature)

/-- `apply(same, nil)`, in which both the callee and an argument have unknowns. -/
def applyCall : Expr := .call "apply" [.name "same" ⟨6, 10⟩, .literal .nil ⟨12, 15⟩] ⟨0, 16⟩

/-- `apply(same, nil)` is `nil`. -/
theorem applyCall_closed :
    applyScope.Closed ∧ applyScope.typeOf applyCall = .ok (some .nil) ∧ Ty.nil.isOpen = false := by
  have hclosed : applyScope.Closed := by
    refine Closed.addFunction (Closed.addFunction (fun l hl => ?_) "apply" fun d hd => ?_) "same" fun d hd => ?_
    · exact List.mem_singleton.1 hl ▸ Level.closed_empty
    · obtain rfl := Option.some.inj hd
      exact ⟨by decide, by decide, by decide⟩
    · obtain rfl := Option.some.inj hd
      exact ⟨by decide, by decide, by decide⟩
  have htype : applyScope.typeOf applyCall = .ok (some .nil) := by cbv
  exact ⟨hclosed, htype, (closed_throughout.1 applyScope hclosed).1 applyCall .nil htype⟩

end Scope

end Gradual
