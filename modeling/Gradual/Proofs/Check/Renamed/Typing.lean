import Gradual.Proofs.Check.Forget
import Gradual.Proofs.Scope.Renamed

/-!
# Types where the names of generic parameters are permuted

In two scopes that differ in names only, which are permuted, an expression has a type in both or in neither, and the two are one
type but for the names in it (`Renamed.typeOf`); a statement declares related things in the two (`Renamed.declare`). All that is
asked of the tree is that it does not use the name for which the scopes are not asked (`Place.Avoids`).
-/

namespace Gradual

/-- Branches have a common type under permuted names exactly when they have one, and it is that one. -/
theorem agree_commonBranchType (φ : Equiv.Perm String) {ts : List (Ty × Span)} (h : ∀ m ∈ ts, m.1.isOpen = false) :
    Agree (fun t t' => t' = t.map (Ty.relabel φ)) (commonBranchType ts)
      (commonBranchType (ts.map fun m => (m.1.relabel φ, m.2))) := by
  cases ts with
  | nil => exact .ok rfl
  | cons m others =>
    rw [List.forall_mem_cons] at h
    have hsame : (∀ m' ∈ others.map fun m => (m.1.relabel φ, m.2), m'.1.eraseOwners = (m.1.relabel φ).eraseOwners) ↔
        ∀ m' ∈ others, m'.1.eraseOwners = m.1.eraseOwners := by
      rw [List.forall_mem_map]
      exact forall₂_congr fun m' hm' => Ty.eraseOwners_permute_inj (K := .everywhere φ) (h.2 m' hm') h.1
    rw [List.map_cons]
    refine Agree.of_follows (fun t ht => ?_) fun t ht => ?_
    · obtain ⟨rfl, hfit⟩ := commonBranchType_cons_iff.1 ht
      exact ⟨_, commonBranchType_cons_iff.2 ⟨rfl, hsame.2 hfit⟩, rfl⟩
    · obtain ⟨rfl, hfit⟩ := commonBranchType_cons_iff.1 ht
      exact ⟨_, commonBranchType_cons_iff.2 ⟨rfl, hsame.1 hfit⟩⟩

namespace Scope

/-- An expression has one type in related scopes, but for the names in it. -/
def TypedAlike (φ : Equiv.Perm String) (y : String) (e : Expr) : Prop :=
  ∀ (Γ : Names) (s s' : Scope), Renamed φ y s s' → (∀ q ∈ Γ.places e, q.Avoids y) →
    Agree (fun t t' => t' = t.map (Ty.relabel φ)) (s.typeOf e) (s'.typeOf e)

/-- A block has one type in related scopes, but for the names in it. -/
def BlockTypedAlike (φ : Equiv.Perm String) (y : String) (b : Block) : Prop :=
  ∀ (Γ : Names) (s s' : Scope), Renamed φ y s s' → (∀ q ∈ Γ.placesOfBlock b, q.Avoids y) →
    Agree (fun t t' => t' = t.map (Ty.relabel φ)) (s.blockType b) (s'.blockType b)

/-- A statement binds related things in related scopes, and has one type at the end of a block, but for the names in it. -/
def DeclaredAlike (φ : Equiv.Perm String) (y : String) (st : Stmt) : Prop :=
  ∀ (Γ : Names) (s s' : Scope), Renamed φ y s s' → (∀ q ∈ Γ.placesOfStmt st, q.Avoids y) →
    Agree (Renamed φ y) (s.declare st) (s'.declare st) ∧
      Agree (fun t t' => t' = t.map (Ty.relabel φ)) (s.bodyType [st]) (s'.bodyType [st])

namespace Renamed

variable {φ : Equiv.Perm String} {y : String} {s s' : Scope} {Γ : Names}

/-! ## What typing asks of a scope -/

/-- A name has one type in the two scopes, but for names. -/
theorem nameType (h : Renamed φ y s s') (n : String) (span : Span) :
    Agree (fun t t' => t' = t.map (Ty.relabel φ)) (s.nameType n span) (s'.nameType n span) := by
  have hv := h.value? n
  have hclosed := h.closed.value (n := n)
  unfold Scope.nameType
  generalize s.value? n = v at hv hclosed ⊢
  generalize s'.value? n = v' at hv ⊢
  cases hv with
  | none => exact .error _ _
  | some hv =>
    cases hv with
    | ofVariable ht => exact .ok ht
    | ofFunction hd =>
      cases hd with
      | none => exact .ok rfl
      | @some d d' hd =>
        refine .ok ?_
        rw [hd.isGeneric_eq]
        cases hg : d.isGeneric with
        | true => rfl
        | false =>
          have heq := hd.eq_rename (hclosed.2 d rfl) hg fun p _ => rfl
          simp [heq, Declaration.functionType, Declaration.rename]

/-- A member has one type in the two scopes, but for names. -/
theorem memberType (h : Renamed φ y s s') (t : Option Ty) (field : String) (span : Span) :
    Agree (fun t t' => t' = t.map (Ty.relabel φ)) (s.memberType t field span)
      (s'.memberType (t.map (Ty.relabel φ)) field span) := by
  cases t with
  | none => exact .ok rfl
  | some t =>
    unfold Scope.memberType
    rw [Option.map_some, Option.bind_some, Option.bind_some, h.record?]
    cases s.record? t with
    | none => exact .ok rfl
    | some r =>
      have hfield : (r.relabel φ).field? field = (r.field? field).map (Ty.relabel φ) := lookup_map_snd _ _ _
      simp only [Option.map_some, hfield]
      cases r.field? field with
      | none => exact .error _ _
      | some u => exact .ok rfl

/-! ## Arguments -/

/-- A generic function that is passed as an argument is passed under the other names too; its unknowns have the
argument's site. -/
theorem passedSignature? (h : Renamed φ y s s') {d d' : Declaration} (hd : Declaration.Renamed φ d d') (i : Nat) (e : Expr) :
    s.passedSignature? d i e = none ∧ s'.passedSignature? d' i e = none ∨
      ∃ (t : Ty) (k : Equiv.Perm String), s.passedSignature? d i e = some t ∧
        s'.passedSignature? d' i e = some (t.rename (.renameApart φ k)) ∧
          ∀ q, t.contains (.parameter q) = true → q.site = none ∨ q.site = some (argumentSite i) := by
  cases e with
  | name n span =>
    have hv := h.value? n
    have hclosed := h.closed.value (n := n)
    simp only [Scope.passedSignature?, hd.isGeneric_eq, hd.any_isFunction_eq]
    split
    · generalize s.value? n = v at hv hclosed ⊢
      generalize s'.value? n = v' at hv ⊢
      cases hv with
      | none => exact Or.inl ⟨rfl, rfl⟩
      | some hv =>
        cases hv with
        | ofVariable ht => exact Or.inl ⟨rfl, rfl⟩
        | ofFunction hp =>
          cases hp with
          | none => exact Or.inl ⟨rfl, rfl⟩
          | @some p p' hp =>
            dsimp only
            rw [hp.isGeneric_eq]
            split
            · obtain ⟨k, hp⟩ := hp
              refine Or.inr ⟨_, k, rfl, ?_, fun q hq => ?_⟩
              · rw [hp]
                simp [Declaration.functionType, Declaration.rename]
              · exact (hclosed.2 p rfl).site_of_use (Or.inr hq)
            · exact Or.inl ⟨rfl, rfl⟩
    · exact Or.inl ⟨rfl, rfl⟩
  | _ => exact Or.inl ⟨rfl, rfl⟩

/-- An argument has one type in the two scopes, but for names, and a generic function that is passed is instantiated alike. -/
theorem argType (h : Renamed φ y s s') {d d' : Declaration} (hd : Declaration.Renamed φ d d') (i : Nat) {e : Expr}
    (he : Agree (fun t t' => t' = t.map (Ty.relabel φ)) (s.typeOf e) (s'.typeOf e)) :
    Agree (fun t t' => ∃ k, ∀ L : Renaming, L none = φ → L (some (argumentSite i)) = k → t' = t.map (Ty.permute L))
      (s.argType d i e (s.typeOf e)) (s'.argType d' i e (s'.typeOf e)) := by
  unfold Scope.argType
  rcases h.passedSignature? hd i e with ⟨hp, hp'⟩ | ⟨t, k, hp, hp', hsites⟩
  · rw [hp, hp']
    refine he.mono fun t t' ht htt => ⟨φ, fun L hL _ => ?_⟩
    cases t with
    | none => exact htt
    | some t =>
      rw [htt, Option.map_some, Option.map_some]
      refine congrArg some (Ty.rename_congr_of_closed (isOpen_typeOf h.closed ht) fun p hp => ?_)
      exact (GenericParameter.permute_of_site hp hL).symm
  · rw [hp, hp']
    refine .ok ⟨k, fun L hL hk => congrArg some (Ty.rename_congr fun q hq => ?_)⟩
    exact GenericParameter.renameApart_eq_permute hL hk (hsites q hq)

/-- Arguments have the same types in the two scopes, but for names. -/
theorem argTypes (h : Renamed φ y s s') {d d' : Declaration} (hd : Declaration.Renamed φ d d') (i : Nat) {es : List Expr}
    (hes : ∀ e ∈ es, Agree (fun t t' => t' = t.map (Ty.relabel φ)) (s.typeOf e) (s'.typeOf e)) :
    Agree (ArgTypes.Renamed φ i) (s.argTypes d i es) (s'.argTypes d' i es) := by
  induction es generalizing i with
  | nil => exact .ok (.nil i)
  | cons e es ih =>
    rw [List.forall_mem_cons] at hes
    refine (h.argType hd i hes.1).bind fun t t' _ ht => ?_
    obtain ⟨k, ht⟩ := ht
    exact (ih (i + 1) hes.2).bind fun ts ts' _ hts => .ok (hts.cons ht)

/-- A call has one type but for the names in it when its arguments do. -/
theorem call (h : Renamed φ y s s') {args : List Expr}
    (hargs : ∀ e ∈ args, Agree (fun t t' => t' = t.map (Ty.relabel φ)) (s.typeOf e) (s'.typeOf e)) (f : String)
    (span : Span) : Agree (fun t t' => t' = t.map (Ty.relabel φ)) (s.typeOf (.call f args span))
      (s'.typeOf (.call f args span)) := by
  have hc := h.callee? f
  have hclosed : ∀ d, s.callee? f = some (.typed d) → d.Closed := fun d hd => h.closed.callee hd
  simp only [Scope.typeOf]
  generalize s.callee? f = c at hc hclosed ⊢
  generalize s'.callee? f = c' at hc ⊢
  cases hc with
  | none => exact .error _ _
  | some hc =>
    cases hc with
    | untyped => exact .ok rfl
    | @typed d d' hd =>
      have hdc : d.Closed := hclosed d rfl
      dsimp only
      rw [hd.isGeneric_eq]
      cases hg : d.isGeneric with
      | true =>
        simp only [if_true]
        exact (h.argTypes hd 0 hargs).bind fun ts ts' _ hts => (hd.resultType hdc hts).mapError _ _
      | false =>
        refine .ok ?_
        rw [hd.eq_rename hdc hg fun p _ => rfl]
        rfl

/-! ## Bindings -/

/-- A variable is new in both scopes, or in neither. -/
theorem ensureNewVariable (h : Renamed φ y s s') (n : String) (span : Span) :
    s'.ensureNewVariable n span = s.ensureNewVariable n span := by
  rw [Scope.ensureNewVariable, Scope.ensureNewVariable, h.level.hasValue_eq]

/-- The scope of a lambda's body comes about in both scopes, or in neither. -/
theorem lambdaScope (h : Renamed φ y s s') {inner inner' : Scope} (hi : Renamed φ y inner inner') {ps : List LambdaParam}
    (hq : ∀ q ∈ Γ.placesOfTypes (ps.filterMap (·.ty)), q.Avoids y) :
    Agree (Option.Rel fun m m' => m'.1 = m.1.map (Ty.relabel φ) ∧ Renamed φ y m.2 m'.2) (s.lambdaScope inner ps)
      (s'.lambdaScope inner' ps) := by
  induction ps generalizing inner inner' with
  | nil => exact .ok (.some ⟨rfl, hi⟩)
  | cons p ps ih =>
    obtain ⟨n, ty, span⟩ := p
    cases ty with
    | none => exact .ok .none
    | some a =>
      simp only [List.filterMap_cons, Names.placesOfTypes, List.forall_mem_append] at hq
      refine (h.resolve hq.1).bind fun t t' ht htt => ?_
      subst htt
      refine (ih (hi.addParameter n (isOpen_resolve h.closed a ht)) hq.2).bind fun m m' _ hm => ?_
      cases hm with
      | none => exact .ok .none
      | some hm => exact .ok (.some ⟨by rw [hm.1]; rfl, hm.2⟩)

/-- Parameters are declared in both scopes, or in neither. -/
theorem declareParams (h : Renamed φ y s s') {ps : List Param} (hq : ∀ q ∈ Γ.placesOfParams ps, q.Avoids y) :
    Agree (Renamed φ y) (s.declareParams ps) (s'.declareParams ps) := by
  induction ps generalizing s s' with
  | nil => exact .ok h
  | cons p ps ih =>
    rw [Names.placesOfParams, List.map_cons, Names.placesOfTypes, List.forall_mem_append] at hq
    rw [Scope.declareParams, Scope.declareParams, h.ensureNewVariable]
    refine Agree.bind_left _ fun _ _ => (h.resolve hq.1).bind fun t t' ht htt => ?_
    subst htt
    exact ih (h.addParameter p.name (isOpen_resolve h.closed p.ty ht)) hq.2

/-- The parameters of a lambda are declared in both scopes, or in neither. -/
theorem declareLambdaParams (h : Renamed φ y s s') {ps : List LambdaParam}
    (hq : ∀ q ∈ Γ.placesOfTypes (ps.filterMap (·.ty)), q.Avoids y) :
    Agree (Renamed φ y) (s.declareLambdaParams ps) (s'.declareLambdaParams ps) := by
  induction ps generalizing s s' with
  | nil => exact .ok h
  | cons p ps ih =>
    obtain ⟨n, ty, span⟩ := p
    rw [Scope.declareLambdaParams, Scope.declareLambdaParams, h.ensureNewVariable]
    refine Agree.bind_left _ fun _ _ => ?_
    cases ty with
    | none =>
      refine ih (h.addVariable n (t := none) ?_) hq
      intro u hu
      cases hu
    | some a =>
      simp only [List.filterMap_cons, Names.placesOfTypes, List.forall_mem_append] at hq
      refine (h.resolve hq.1).bind fun t t' ht htt => ?_
      subst htt
      exact ih (h.addParameter n (isOpen_resolve h.closed a ht)) hq.2

/-- A loop variable has one type in both scopes, but for names. -/
theorem loopVarType {iterable : Expr}
    (he : Agree (fun t t' => t' = t.map (Ty.relabel φ)) (s.typeOf iterable) (s'.typeOf iterable)) (vars : List LocalName) :
    Agree (fun t t' => t' = t.map (Ty.relabel φ)) (s.loopVarType vars iterable) (s'.loopVarType vars iterable) := by
  unfold Scope.loopVarType
  split
  · refine he.bind fun t t' _ htt => .ok ?_
    subst htt
    cases t with
    | none => rfl
    | some t => exact Ty.element?_rename t
  · exact .ok rfl

/-- Loop variables are declared in both scopes, or in neither. -/
theorem declareLoopVars (h : Renamed φ y s s') {ty : Option Ty} (hty : ∀ t, ty = some t → t.isOpen = false)
    (vs : List LocalName) :
    Agree (Renamed φ y) (s.declareLoopVars ty vs) (s'.declareLoopVars (ty.map (Ty.relabel φ)) vs) := by
  induction vs generalizing s s' with
  | nil => exact .ok h
  | cons v vs ih =>
    rw [Scope.declareLoopVars, Scope.declareLoopVars, h.ensureNewVariable]
    exact Agree.bind_left _ fun _ _ => ih (h.addVariable v.name hty)

/-- Methods declare related things in the two scopes. -/
theorem declareMethods (h : Renamed φ y s s') (receiver : String) {fields : List Param} {ms : List Method}
    (hq : ∀ q ∈ Γ.placesOfMethods fields ms, q.Avoids y) :
    Agree (Renamed φ y) (s.declareMethods (.simple receiver) ms) (s'.declareMethods (.simple receiver) ms) := by
  induction ms generalizing s s' Γ with
  | nil => exact .ok h
  | cons m ms ih =>
    obtain ⟨n, params, ret, body, span⟩ := m
    rw [Names.placesOfMethods, List.forall_mem_append, List.forall_mem_append, List.forall_mem_append] at hq
    refine (h.methodDeclaration receiver n hq.1 hq.2.1).bind fun d d' hd hdd => ?_
    exact ih (h.addFunction n hdd fun e he => closed_methodDeclaration h.closed rfl hd he) hq.2.2.2

/-- Implementations declare related things in the two scopes. -/
theorem declareImplementations (h : Renamed φ y s s') (receiver : String) {fields : List Param} {is : List Implementation}
    (hq : ∀ q ∈ Γ.placesOfImplementations fields is, q.Avoids y) :
    Agree (Renamed φ y) (s.declareImplementations (.simple receiver) is) (s'.declareImplementations (.simple receiver) is) := by
  induction is generalizing s s' Γ with
  | nil => exact .ok h
  | cons i is ih =>
    obtain ⟨protocol, methods, span⟩ := i
    rw [Names.placesOfImplementations, List.forall_mem_append] at hq
    exact (h.declareMethods receiver hq.1).bind fun r r' _ hr => ih hr hq.2

/-- A function declares related things in the two scopes. -/
theorem declareFunction (h : Renamed φ y s s') {n : String} {generics : List String} {params : List Param}
    {ret : Option Annotation} (hp : ∀ q ∈ Γ.placesOfParams params, q.Avoids y) (hr : ∀ q ∈ Γ.placesOfType? ret, q.Avoids y) :
    Agree (Renamed φ y) (s.declareFunction n generics params ret) (s'.declareFunction n generics params ret) := by
  refine (h.functionDeclaration_id generics n hp hr).bind fun d d' hd hdd => .ok (h.addFunction n hdd fun e he => ?_)
  exact closed_functionDeclaration (h.closed.withGenerics n generics) hd he

/-- A record declares related things in the two scopes, and binds its name anew. -/
theorem declareRecord (h : Renamed φ y s s') {n : String} {fields : List Param} {is : List Implementation} (hn : n ≠ y)
    {Γ₀ : Names} (hf : ∀ q ∈ Γ₀.placesOfParams fields, q.Avoids y) (hi : ∀ q ∈ Γ.placesOfImplementations fields is, q.Avoids y) :
    Agree (Renamed φ y) (s.declareRecord n fields is) (s'.declareRecord n fields is) := by
  refine (recordLayout (h.type_addType hn) n hf).bind fun layout layout' hl hll => ?_
  subst hll
  have hr := h.bindRecord hn (names_of_recordLayout hl).1 (closed_recordLayout (h.closed.addType n rfl) hl)
  exact hr.declareImplementations n hi

/-- The bindings of a let bind related types when the types of their values are related. -/
theorem bindAll (h : Renamed φ y s s') {bs : List Binding} (hq : ∀ q ∈ Γ.placesOfBindings bs, q.Avoids y)
    (ih : ∀ b ∈ bs, TypedAlike φ y b.value) : Agree (Renamed φ y) (s.bindAll bs) (s'.bindAll bs) := by
  induction bs generalizing s s' Γ with
  | nil => exact .ok h
  | cons b bs ihbs =>
    obtain ⟨n, value, span⟩ := b
    rw [List.forall_mem_cons] at ih
    rw [Names.placesOfBindings, List.forall_mem_append] at hq
    refine (ih.1 Γ s s' h hq.1).bind fun t t' ht htt => ?_
    subst htt
    exact ihbs (h.addVariable n fun u hu => isOpen_typeOf h.closed (hu ▸ ht)) hq.2 ih.2

/-- The types of branches are related when those of their blocks are. -/
theorem branchTypes {bs : List Branch}
    (hbs : ∀ b ∈ bs, Agree (fun t t' => t' = t.map (Ty.relabel φ)) (s.blockType b.body) (s'.blockType b.body)) :
    Agree (fun ts ts' => ts' = ts.map (List.map fun m => (m.1.relabel φ, m.2))) (s.branchTypes bs) (s'.branchTypes bs) := by
  induction bs with
  | nil => exact .ok rfl
  | cons b bs ih =>
    obtain ⟨condition, body⟩ := b
    rw [List.forall_mem_cons] at hbs
    rw [Scope.branchTypes]
    refine hbs.1.bind fun t t' _ htt => ?_
    subst htt
    cases t with
    | none => exact .ok rfl
    | some t =>
      refine (ih hbs.2).bind fun ts ts' _ hts => ?_
      subst hts
      cases ts with
      | none => exact .ok rfl
      | some ts => exact .ok (by simp)

/-- Statements have related types when each binds related things, and the last has a related type. -/
theorem bodyType (h : Renamed φ y s s') {stmts : List Stmt} (hq : ∀ q ∈ Γ.placesOfStmts stmts, q.Avoids y)
    (ih : ∀ st ∈ stmts, DeclaredAlike φ y st) :
    Agree (fun t t' => t' = t.map (Ty.relabel φ)) (s.bodyType stmts) (s'.bodyType stmts) := by
  induction stmts generalizing s s' Γ with
  | nil => exact .ok rfl
  | cons st stmts ihs =>
    rw [List.forall_mem_cons] at ih
    rw [Names.placesOfStmts, List.forall_mem_append] at hq
    obtain ⟨hdeclare, hlast⟩ := ih.1 Γ s s' h hq.1
    cases stmts with
    | nil => exact hlast
    | cons st' stmts =>
      rw [bodyType_cons_cons, bodyType_cons_cons]
      refine hdeclare.bind fun r r' _ hr => ?_
      exact ihs hr hq.2 ih.2

end Renamed

/-! ## The induction -/

/-- Each construct has one type in related scopes, but for the names in it, and binds related things, when its parts do. -/
theorem typedAlike_cases (φ : Equiv.Perm String) (y : String) :
    TreeCases (TypedAlike φ y) (BlockTypedAlike φ y) (DeclaredAlike φ y) where
  literal v span Γ s s' h hq := .ok (by cases v <;> rfl)
  name n span Γ s s' h hq := h.nameType n span
  binary op l r span _ _ Γ s s' h hq := .ok (by cases op <;> rfl)
  unary op e span _ Γ s s' h hq := .ok (by cases op <;> rfl)
  call f args span ih Γ s s' h hq := by
    rw [Names.places, List.forall_mem_cons, Names.forall_placesOfAll] at hq
    exact h.call (fun e he => ih e he Γ s s' h (hq.2 e he)) f span
  methodCall threading receiver m args span ihr ih Γ s s' h hq := by
    rw [Names.places, List.forall_mem_cons, List.forall_mem_append, Names.forall_placesOfAll] at hq
    rw [typeOf_methodCall, typeOf_methodCall]
    refine h.call (fun e he => ?_) m span
    rcases threading.mem_arrange.1 he with rfl | he
    · exact ihr Γ s s' h hq.2.1
    · exact ih e he Γ s s' h (hq.2.2 e he)
  member target field span ih Γ s s' h hq := by
    rw [Names.places, List.forall_mem_cons] at hq
    refine (ih Γ s s' h hq.2).bind fun t t' _ htt => ?_
    subst htt
    exact h.memberType t field span
  get collection key span ih _ Γ s s' h hq := by
    rw [Names.places, List.forall_mem_cons, List.forall_mem_append] at hq
    refine (ih Γ s s' h hq.2.1).bind fun t t' _ htt => .ok ?_
    subst htt
    cases t with
    | none => rfl
    | some t => exact Ty.entry?_rename t
  vector items span _ Γ s s' h hq := .ok rfl
  map entries span _ Γ s s' h hq := .ok rfl
  block b ih Γ s s' h hq := by
    rw [Names.places, List.forall_mem_cons] at hq
    exact ih Γ s s' h hq.2
  letIn bindings body span ih ihb Γ s s' h hq := by
    rw [Names.places, List.forall_mem_cons, List.forall_mem_append] at hq
    exact (h.child.bindAll hq.2.1 ih).bind fun r r' _ hr => ihb _ r r' hr hq.2.2
  forEach vars iterable body span _ _ Γ s s' h hq := .ok rfl
  cond branches otherwise span ih iho Γ s s' h hq := by
    rw [Names.places, List.forall_mem_cons, List.forall_mem_append, Names.forall_placesOfBranches] at hq
    cases otherwise with
    | none => exact .ok rfl
    | some b =>
      have hbranches := Renamed.branchTypes (φ := φ) fun b hb => (ih b hb).2 Γ s s' h (hq.2.1 b hb).2
      rw [typeOf, typeOf]
      refine hbranches.bind fun ts ts' hts htss => ?_
      subst htss
      cases ts with
      | none => exact .ok rfl
      | some ts =>
        refine (iho b rfl Γ s s' h hq.2.2).bind fun t t' ht htt => ?_
        subst htt
        cases t with
        | none => exact .ok rfl
        | some t =>
          have hclosed : ∀ m ∈ ts ++ [(t, b.span)], m.1.isOpen = false := by
            rw [List.forall_mem_append, List.forall_mem_singleton]
            refine ⟨isOpen_branchTypes (fun b _ t ht => isOpen_typeOf h.closed (e := .block b.body) ht) hts, ?_⟩
            exact isOpen_typeOf h.closed (e := .block b) ht
          have hcommon := agree_commonBranchType φ hclosed
          rw [List.map_append] at hcommon
          simpa using hcommon
  lambda params body span ih Γ s s' h hq := by
    rw [Names.places, List.forall_mem_cons, List.forall_mem_append] at hq
    refine (h.lambdaScope h.child hq.2.1).bind fun m m' _ hm => ?_
    cases hm with
    | none => exact .ok rfl
    | @some m m' hm =>
      obtain ⟨ts, inner⟩ := m
      obtain ⟨ts', inner'⟩ := m'
      obtain ⟨rfl, hinner⟩ := hm
      refine (ih _ inner inner' hinner hq.2.2).bind fun t t' _ htt => .ok ?_
      subst htt
      cases t with
      | none => rfl
      | some t => simp
  paren e span ih Γ s s' h hq := by
    rw [Names.places, List.forall_mem_cons] at hq
    exact ih Γ s s' h hq.2
  stmts stmts span ih Γ s s' h hq := by
    rw [Names.placesOfBlock, List.forall_mem_cons] at hq
    exact h.child.bodyType hq.2 ih
  function n generics params ret body span _ Γ s s' h hq := by
    rw [Names.placesOfStmt, List.forall_mem_cons, List.forall_mem_append, List.forall_mem_append] at hq
    exact ⟨h.declareFunction hq.2.1 hq.2.2.1, .error _ _⟩
  record n fields implementations span _ Γ s s' h hq := by
    rw [Names.placesOfStmt, List.forall_mem_cons, List.forall_mem_append] at hq
    have hn : n ≠ y := fun hn => hq.1 (by simp [Part.typeNames, hn])
    exact ⟨h.declareRecord hn hq.2.1 hq.2.2, .error _ _⟩
  define n ty value span ih Γ s s' h hq := by
    rw [Names.placesOfStmt, List.forall_mem_cons, List.forall_mem_append] at hq
    refine ⟨?_, .error _ _⟩
    cases ty with
    | none =>
      refine (ih Γ s s' h hq.2.2).bind fun t t' ht htt => .ok ?_
      subst htt
      exact h.addVariable n fun u hu => isOpen_typeOf h.closed (hu ▸ ht)
    | some a =>
      rw [Names.placesOfType?_some] at hq
      refine (h.resolve hq.2.1).bind fun t t' ht htt => .ok ?_
      subst htt
      exact h.addVariable n (t := some t) fun u hu => Option.some.inj hu ▸ isOpen_resolve h.closed a ht
  expr e ih Γ s s' h hq := by
    rw [Names.placesOfStmt, List.forall_mem_cons] at hq
    exact ⟨.ok h, ih Γ s s' h hq.2⟩

namespace Renamed

variable {φ : Equiv.Perm String} {y : String} {s s' : Scope} {Γ : Names}

/-- In related scopes an expression and the renamed expression have one type, but for the names in it. -/
theorem typeOf (h : Renamed φ y s s') {e : Expr} (hq : ∀ q ∈ Γ.places e, q.Avoids y) :
    Agree (fun t t' => t' = t.map (Ty.relabel φ)) (s.typeOf e) (s'.typeOf e) :=
  (typedAlike_cases φ y).all_exprs e Γ s s' h hq

/-- In related scopes a statement and the renamed statement bind related things. -/
theorem declare (h : Renamed φ y s s') {st : Stmt} (hq : ∀ q ∈ Γ.placesOfStmt st, q.Avoids y) :
    Agree (Renamed φ y) (s.declare st) (s'.declare st) :=
  ((typedAlike_cases φ y).all_stmts st Γ s s' h hq).1

end Renamed

end Scope

end Gradual
